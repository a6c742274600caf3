import SelfHealingCache.GatewaySteps
import SelfHealingCache.PercentEncoding
import Mathlib.Data.List.TakeWhile

namespace SelfHealingCache

/-- The bytes of `/cache/`. -/
def cacheBase : List UInt8 := utf8 "/cache/".toList

/-- The key a route `/cache/(.+)` of the cache server captures; the dot stands for every
byte but the line ends. -/
def cacheRoute (path : List UInt8) : Option (List UInt8) :=
  if cacheBase <+: path then
    let key := path.drop cacheBase.length
    if key ≠ [] ∧ 10 ∉ key ∧ 13 ∉ key then some key else none
  else none

/-- What of the key belongs to the path of the URL. -/
def pathPart (key : String) : List Char := key.toList.takeWhile fun c => c ≠ '?' ∧ c ≠ '#'

/-- Host and port without a character that ends the authority of a URL. -/
def PlainAuthority (authority : String) : Prop :=
  ∀ c ∈ authority.toList, c ≠ '/' ∧ c ≠ '?' ∧ c ≠ '#'

instance (authority : String) : Decidable (PlainAuthority authority) :=
  inferInstanceAs (Decidable (∀ c ∈ authority.toList, c ≠ '/' ∧ c ≠ '?' ∧ c ≠ '#'))

/-- The last segment is a dot segment. -/
def DotSegment (segment : List Char) : Prop := segment = ['.'] ∨ segment = ['.', '.']

instance (segment : List Char) : Decidable (DotSegment segment) :=
  inferInstanceAs (Decidable (segment = ['.'] ∨ segment = ['.', '.']))

/-- `httpx`: the path that it sends for a URL is what stands before `?` and `#`, quoted;
dot segments are removed. -/
structure HttpxPath (legal : Char → Bool) (rawPath : String → List UInt8) : Prop where
  legal_set : LegalSet legal
  quoted : ∀ authority key, PlainAuthority authority → '/' ∉ key.toList →
    ¬DotSegment (pathPart key) →
    rawPath ("http://" ++ authority ++ ("/cache/" ++ key)) =
      cacheBase ++ quote legal (pathPart key)
  removed : ∀ authority key, PlainAuthority authority → '/' ∉ key.toList →
    DotSegment (pathPart key) →
    rawPath ("http://" ++ authority ++ ("/cache/" ++ key)) ∈
      [utf8 "/cache/".toList, utf8 "/cache".toList, utf8 "/".toList, []]

/-- The key that the handler of the cache node receives, if any. -/
def received (rawPath : String → List UInt8) (decode : List UInt8 → List UInt8) (url : String) :
    Option (List UInt8) :=
  cacheRoute (decode (rawPath url))

/-- The keys that survive: no delimiter, no line end, no valid escape, no dot segment. -/
structure Transparent (key : String) : Prop where
  query : '?' ∉ key.toList
  fragment : '#' ∉ key.toList
  newline : '\n' ∉ key.toList
  carriage_return : '\r' ∉ key.toList
  escape : ¬HasEscape key.toList
  dots : ¬DotSegment key.toList

theorem cacheRoute_base (key : List UInt8) : cacheRoute (cacheBase ++ key) =
    if key ≠ [] ∧ 10 ∉ key ∧ 13 ∉ key then some key else none := by
  rw [cacheRoute, if_pos (List.prefix_append _ _), List.drop_left]

theorem percent_not_mem_base : (37 : UInt8) ∉ cacheBase := by decide

section paths

variable {legal : Char → Bool} {rawPath : String → List UInt8}
  {decode : List UInt8 → List UInt8}

theorem pathPart_eq_iff {key : String} :
    pathPart key = key.toList ↔ '?' ∉ key.toList ∧ '#' ∉ key.toList := by
  rw [pathPart, List.takeWhile_eq_self_iff]
  constructor
  · intro h
    refine ⟨fun hm => ?_, fun hm => ?_⟩
    · simpa using h _ hm
    · simpa using h _ hm
  · intro h c hc
    have hq : c ≠ '?' := fun he => h.1 (he ▸ hc)
    have hf : c ≠ '#' := fun he => h.2 (he ▸ hc)
    simp [hq, hf]

theorem length_pathPart_lt {key : String} (h : pathPart key ≠ key.toList) :
    (utf8 (pathPart key)).length < (utf8 key.toList).length := by
  obtain ⟨rest, hrest⟩ : pathPart key <+: key.toList := List.takeWhile_prefix _
  have hne : rest ≠ [] := by
    intro hnil
    rw [hnil, List.append_nil] at hrest
    exact h hrest
  obtain ⟨c, cs, hcs⟩ := List.exists_cons_of_ne_nil hne
  have hpos := length_utf8EncodeChar_pos c
  rw [← hrest, hcs, utf8_append, List.length_append]
  simp only [utf8, List.flatMap_cons, List.length_append]
  omega

theorem received_of_dots (hx : HttpxPath legal rawPath) (hd : PercentDecodes decode)
    {authority key : String} (ha : PlainAuthority authority) (hkey : '/' ∉ key.toList)
    (hdots : DotSegment (pathPart key)) :
    received rawPath decode ("http://" ++ authority ++ ("/cache/" ++ key)) = none := by
  have hmem := hx.removed authority key ha hkey hdots
  have hplain : ∀ path ∈ [utf8 "/cache/".toList, utf8 "/cache".toList, utf8 "/".toList, []],
      37 ∉ path ∧ cacheRoute path = none := by
    decide
  obtain ⟨hno, hroute⟩ := hplain _ hmem
  rw [received, hd.plain_eq hno]
  exact hroute

theorem received_of_not_dots (hx : HttpxPath legal rawPath) (hd : PercentDecodes decode)
    {authority key : String} (ha : PlainAuthority authority) (hkey : '/' ∉ key.toList)
    (hdots : ¬DotSegment (pathPart key)) :
    received rawPath decode ("http://" ++ authority ++ ("/cache/" ++ key)) =
      if decode (quote legal (pathPart key)) ≠ [] ∧ 10 ∉ decode (quote legal (pathPart key)) ∧
          13 ∉ decode (quote legal (pathPart key)) then
        some (decode (quote legal (pathPart key)))
      else none := by
  rw [received, hx.quoted authority key ha hkey hdots, hd.append percent_not_mem_base,
    cacheRoute_base]

/-- A key reaches the node unchanged exactly when it is transparent. -/
theorem received_iff (hx : HttpxPath legal rawPath) (hd : PercentDecodes decode)
    {authority key : String} (ha : PlainAuthority authority) (hkey : '/' ∉ key.toList)
    (hne : key ≠ "") :
    received rawPath decode ("http://" ++ authority ++ ("/cache/" ++ key)) =
      some (utf8 key.toList) ↔ Transparent key := by
  constructor
  · intro h
    by_cases hdots : DotSegment (pathPart key)
    · rw [received_of_dots hx hd ha hkey hdots] at h
      cases h
    rw [received_of_not_dots hx hd ha hkey hdots] at h
    split at h
    next hroute =>
      have heq := Option.some.inj h
      rw [heq] at hroute
      have hlen := hd.length_le hx.legal_set (pathPart key)
      rw [heq] at hlen
      have hpart : pathPart key = key.toList := by
        by_contra hcut
        have hlt := length_pathPart_lt hcut
        omega
      rw [hpart] at heq hdots
      obtain ⟨hq, hf⟩ := pathPart_eq_iff.mp hpart
      refine ⟨hq, hf, ?_, ?_, ?_, hdots⟩
      · exact fun hm => hroute.2.1 ((mem_utf8_iff (by decide)).mpr hm)
      · exact fun hm => hroute.2.2 ((mem_utf8_iff (by decide)).mpr hm)
      · intro hesc
        have hlt := hd.length_lt hx.legal_set hesc
        rw [heq] at hlt
        omega
    next => cases h
  · intro h
    have hpart : pathPart key = key.toList := pathPart_eq_iff.mpr ⟨h.query, h.fragment⟩
    have hdots : ¬DotSegment (pathPart key) := by
      rw [hpart]
      exact h.dots
    have hround := hd.roundtrip hx.legal_set h.escape
    rw [received_of_not_dots hx hd ha hkey hdots, hpart, hround]
    refine if_pos ⟨?_, ?_, ?_⟩
    · intro hnil
      have hempty : utf8 key.toList = utf8 "".toList := hnil
      exact hne (utf8_injective hempty)
    · exact fun hm => h.newline ((mem_utf8_iff (by decide)).mp hm)
    · exact fun hm => h.carriage_return ((mem_utf8_iff (by decide)).mp hm)

end paths

namespace Gateway

/-- The key of a client request. -/
def Event.key : Event → Option String
  | .getKey _ key _ => some key
  | .putKey _ key _ _ => some key
  | .deleteKey _ key => some key
  | _ => none

/-- Host and port of a registered node, as `call_node` writes them. -/
def authority (g : Gateway) (nodeId : String) : Option String :=
  (g.clusterManager.getNodeInfo nodeId).map fun info => info.host ++ ":" ++ toString info.port

section requests

variable (_hash : String → Nat)

/-- The call that an event makes, with its request. -/
def sent (g : Gateway) : Event → Option (PendingCall × HttpRequest)
  | .getKey now key xClientZone => (g.getKey _hash now key xClientZone).2.toOption
  | .putKey now key request xClientZone => (g.putKey _hash now key request xClientZone).2.toOption
  | .deleteKey now key => (g.deleteKey _hash now key).2.toOption
  | _ => none

theorem send_ok {g : Gateway} {call : PendingCall} {method : Method} {body : Option Json}
    {made : PendingCall × HttpRequest} (h : (g.send call method body).2.toOption = some made) :
    made.1 = call ∧ ∃ authority, g.authority call.nodeId = some authority ∧
      made.2.url = "http://" ++ authority ++ ("/cache/" ++ call.key) := by
  unfold send callNodeStart at h
  unfold authority
  cases hinfo : g.clusterManager.getNodeInfo call.nodeId with
  | none =>
    rw [hinfo] at h
    cases h
  | some info =>
    rw [hinfo] at h
    cases Option.some.inj h
    refine ⟨rfl, _, rfl, ?_⟩
    simp only [String.append_assoc]

theorem callPrimary_ok {g : Gateway} {now : Time} {handler : Handler} {method : Method}
    {key : String} {xClientZone : Option String} {body : Option Json}
    {made : PendingCall × HttpRequest}
    (h : (g.callPrimary _hash now handler method key xClientZone body).2.toOption = some made) :
    made.1.key = key ∧ ∃ authority, g.authority made.1.nodeId = some authority ∧
      made.2.url = "http://" ++ authority ++ ("/cache/" ++ key) := by
  unfold callPrimary at h
  dsimp only at h
  split at h
  next => cases h
  next =>
    split at h
    next =>
      obtain ⟨hcall, hurl⟩ := send_ok h
      rw [hcall]
      exact ⟨rfl, hurl⟩
    next => cases h

/-- Every request of a client is sent to the path of its key on the node called. -/
theorem sent_url {g : Gateway} {event : Event} {made : PendingCall × HttpRequest}
    (h : g.sent _hash event = some made) : event.key = some made.1.key ∧
      ∃ authority, g.authority made.1.nodeId = some authority ∧
        made.2.url = "http://" ++ authority ++ ("/cache/" ++ made.1.key) := by
  cases event with
  | getKey now key xClientZone =>
    rw [sent] at h
    rcases getKey_cases _hash g now key xClientZone with ⟨_, e, _, hget⟩ | ⟨n, _, _, hget⟩
    · rw [hget] at h
      cases h
    · rw [hget] at h
      obtain ⟨hcall, hurl⟩ := send_ok h
      rw [hcall]
      exact ⟨rfl, hurl⟩
  | putKey now key request xClientZone =>
    obtain ⟨hkey, hurl⟩ := callPrimary_ok _hash h
    rw [hkey]
    exact ⟨rfl, hurl⟩
  | deleteKey now key =>
    obtain ⟨hkey, hurl⟩ := callPrimary_ok _hash h
    rw [hkey]
    exact ⟨rfl, hurl⟩
  | _ => cases h

variable {legal : Char → Bool} {rawPath : String → List UInt8}
  {decode : List UInt8 → List UInt8}

/-- The node handles a client's request under the client's key exactly if that key is
transparent. -/
theorem key_identity_iff (hx : HttpxPath legal rawPath) (hd : PercentDecodes decode)
    (g : Gateway) (event : Event) (call : PendingCall) (request : HttpRequest)
    (hsent : g.sent _hash event = some (call, request))
    (ha : ∀ authority, g.authority call.nodeId = some authority → PlainAuthority authority)
    (key : String) (hkey : event.key = some key) (hne : key ≠ "") (hslash : '/' ∉ key.toList) :
    received rawPath decode request.url = some (utf8 key.toList) ↔ Transparent key := by
  obtain ⟨hcall, authority, hauthority, hurl⟩ := sent_url _hash hsent
  cases Option.some.inj (hkey.symm.trans hcall)
  dsimp only at hurl
  rw [hurl]
  exact received_iff hx hd (ha authority hauthority) hslash hne

/-- Two transparent keys never meet in one entry of a node. -/
theorem received_injective (hx : HttpxPath legal rawPath) (hd : PercentDecodes decode)
    {authority authority' key key' : String} (ha : PlainAuthority authority)
    (ha' : PlainAuthority authority') (hslash : '/' ∉ key.toList) (hslash' : '/' ∉ key'.toList)
    (hne : key ≠ "") (hne' : key' ≠ "") (ht : Transparent key) (ht' : Transparent key')
    (h : received rawPath decode ("http://" ++ authority ++ ("/cache/" ++ key)) =
      received rawPath decode ("http://" ++ authority' ++ ("/cache/" ++ key'))) : key = key' := by
  rw [(received_iff hx hd ha hslash hne).mpr ht, (received_iff hx hd ha' hslash' hne').mpr ht'] at h
  exact utf8_injective (Option.some.inj h)

end requests

end Gateway

/-- The characters of an RFC 3986 path. -/
def pathChar (c : Char) : Bool :=
  48 ≤ c.toNat && c.toNat ≤ 57 || 65 ≤ c.toNat && c.toNat ≤ 90 || 97 ≤ c.toNat && c.toNat ≤ 122 ||
    [33, 36, 38, 39, 40, 41, 42, 43, 44, 45, 46, 47, 58, 59, 61, 64, 95, 126].contains c.toNat

/-- The path of an `http` URL, split off, freed from a last dot segment and quoted. -/
def httpPath (url : String) : List UInt8 :=
  let path := ((url.toList.drop 7).dropWhile fun c => c ≠ '/').takeWhile fun c => c ≠ '?' ∧ c ≠ '#'
  if path = "/cache/.".toList then utf8 "/cache".toList
  else if path = "/cache/..".toList then utf8 "/".toList
  else quote pathChar path

/-- Percent-decoding; an escape that is not valid is copied. -/
def percentDecode : List UInt8 → List UInt8
  | b :: h :: l :: rest =>
    if b = 37 then
      match hexValue h.toNat, hexValue l.toNat with
      | some x, some y => UInt8.ofNat (16 * x + y) :: percentDecode rest
      | _, _ => b :: percentDecode (h :: l :: rest)
    else b :: percentDecode (h :: l :: rest)
  | rest => rest

theorem pathChar_legal : LegalSet pathChar := by
  intro c hc
  have hcode : c.toNat < 128 ∧ c.toNat ≠ 37 := by
    simp only [pathChar, Bool.or_eq_true, Bool.and_eq_true, decide_eq_true_eq,
      List.contains_eq_mem, List.mem_cons, List.not_mem_nil, or_false] at hc
    omega
  refine ⟨hcode.1, fun he => hcode.2 ?_⟩
  rw [he]
  rfl

theorem percentDecode_decodes : PercentDecodes percentDecode where
  nil := rfl
  plain := by
    intro b rest hb
    cases rest with
    | nil => rfl
    | cons h rest =>
      cases rest with
      | nil => rfl
      | cons l rest => exact if_neg hb
  escaped := by
    intro h l rest x y hx hy
    rw [percentDecode, if_pos rfl, hx, hy]

theorem http_path_split {authority key : String} (ha : PlainAuthority authority) :
    ((("http://" ++ authority ++ ("/cache/" ++ key)).toList.drop 7).dropWhile
      fun c => c ≠ '/').takeWhile (fun c => c ≠ '?' ∧ c ≠ '#') =
      "/cache/".toList ++ pathPart key := by
  have hscheme : "http://".toList = ['h', 't', 't', 'p', ':', '/', '/'] := by decide
  have hcache : "/cache/".toList = ['/', 'c', 'a', 'c', 'h', 'e', '/'] := by decide
  have hhost : ∀ c ∈ authority.toList, decide (c ≠ '/') = true :=
    fun c hc => decide_eq_true (ha c hc).1
  rw [String.toList_append, String.toList_append, String.toList_append, hscheme, hcache]
  change ((authority.toList ++ '/' :: ('c' :: 'a' :: 'c' :: 'h' :: 'e' :: '/' ::
    key.toList)).dropWhile fun c => c ≠ '/').takeWhile _ = _
  rw [List.dropWhile_append_of_pos hhost, List.dropWhile_cons_of_neg (by decide)]
  rfl

theorem httpPath_httpx : HttpxPath pathChar httpPath where
  legal_set := pathChar_legal
  quoted := by
    intro authority key ha _ hdots
    have hone : "/cache/".toList ++ pathPart key ≠ "/cache/".toList ++ ['.'] :=
      fun h => hdots (Or.inl (List.append_cancel_left h))
    have htwo : "/cache/".toList ++ pathPart key ≠ "/cache/".toList ++ ['.', '.'] :=
      fun h => hdots (Or.inr (List.append_cancel_left h))
    unfold httpPath
    dsimp only
    have hdot : "/cache/.".toList = "/cache/".toList ++ ['.'] := by decide
    have htwodots : "/cache/..".toList = "/cache/".toList ++ ['.', '.'] := by decide
    rw [http_path_split ha, hdot, htwodots, if_neg hone, if_neg htwo,
      quote_append pathChar_legal (by simp [pathChar])]
    rfl
  removed := by
    intro authority key ha _ hdots
    unfold httpPath
    dsimp only
    rw [http_path_split ha]
    rcases hdots with hdot | hdots
    · rw [hdot, if_pos (by decide)]
      decide
    · rw [hdots, if_neg (by decide), if_pos (by decide)]
      decide

namespace Gateway

/-- A cluster of one node. -/
def oneNode : Gateway := (init 10 3 5 30).registerNode (fun _ => 0) 0 "a" "h" 1 "z" 5

theorem key_identity_percent :
    (oneNode.sent (fun _ => 0) (.putKey 1 "50% off" ⟨"v", none⟩ none)).map
      (fun made => received httpPath percentDecode made.2.url) =
        some (some (utf8 "50% off".toList)) := by
  obtain ⟨made, hmade⟩ : ∃ made, oneNode.sent (fun _ => 0)
      (.putKey 1 "50% off" ⟨"v", none⟩ none) = some made :=
    Option.isSome_iff_exists.mp (by decide +kernel)
  have hnode : (oneNode.sent (fun _ => 0) (.putKey 1 "50% off" ⟨"v", none⟩ none)).map
      (fun made => made.1.nodeId) = some "a" := by
    decide +kernel
  have hplain : oneNode.authority "a" = some "h:1" := by decide +kernel
  have hescape : ¬HasEscape "50% off".toList :=
    fun h => absurd ((length_bytes_tokens _).2 h) (by decide)
  rw [hmade, Option.map_some, Option.some.injEq] at hnode
  rw [hmade, Option.map_some]
  refine congrArg some ((key_identity_iff (fun _ => 0) httpPath_httpx percentDecode_decodes oneNode
    _ made.1 made.2 hmade ?_ "50% off" rfl (by decide) (by decide)).mpr ?_)
  · intro authority ha
    rw [hnode, hplain] at ha
    cases Option.some.inj ha
    simp [PlainAuthority]
  · exact ⟨by decide, by decide, by decide, by decide, hescape, by decide⟩

/-- Two client keys with which the entry of a third key is read and overwritten. -/
theorem keys_aliased :
    HttpxPath pathChar httpPath ∧ PercentDecodes percentDecode ∧
    (oneNode.sent (fun _ => 0) (.getKey 1 "a?b" none)).map
      (fun made => received httpPath percentDecode made.2.url) = some (some (utf8 "a".toList)) ∧
    (oneNode.sent (fun _ => 0) (.putKey 1 "%61" ⟨"v", none⟩ none)).map
      (fun made => received httpPath percentDecode made.2.url) = some (some (utf8 "a".toList)) :=
  ⟨httpPath_httpx, percentDecode_decodes, by decide +kernel, by decide +kernel⟩

end Gateway

end SelfHealingCache
