import RevenueOS.Communications.Inbox
import RevenueOS.Leads.Forms
import RevenueOS.Leads.Lifecycle

/-!
# RevenueOS.Leads.Origins — the sites that a form or a chat may be embedded in

`validate_origins` (`domain/leads/form_schema.py`), and the two functions that compare the header of a request with its
list: `origin_allowed` of `application/leads/forms.py` and of `application/communications/webchat.py`.

* `isPlainOrigin_iff`: which texts are a scheme, a host and perhaps a port.
* `validate_origins_safe_iff`: when a list that is accepted has only those.
* `origins_agree_iff`: when the two functions agree, whatever `str.lower` makes of a text.
-/

namespace RevenueOS.Leads

open RevenueOS.Py RevenueOS.Communications

/-! ## `validate_origins` -/

/-- `str(raw).strip().rstrip("/")`. -/
def cleanOrigin (raw : Json) : String := rstripSlash (strip raw.text)

/-- What the body of the loop says against an origin. -/
def originProblem (origin : String) : Option String :=
  if origin = "*" then some "`*` is not an allowed origin. List the sites explicitly."
  else if !(startsWith origin "https://" || startsWith origin "http://localhost" ||
      startsWith origin "http://127.0.0.1") then
    some (Py.reprStr origin ++ " must be https, or localhost for development.")
  else if 2 < origin.toList.count '/' then some (Py.reprStr origin ++ " looks like a URL. An origin has no path.")
  else none

/-- `validate_origins`. -/
def validateOrigins (origins : List Json) : Except LeadError (List String) :=
  let cleaned := (origins.map cleanOrigin).filter fun origin => (originProblem origin).isNone
  let problems := (origins.map cleanOrigin).filterMap originProblem
  if problems.isEmpty then .ok cleaned else .error (.validation "These origins are not valid.")

/-- What is accepted is returned entry by entry. -/
theorem eq_of_validateOrigins {origins : List Json} {allowed : List String}
    (h : validateOrigins origins = .ok allowed) :
    allowed = origins.map cleanOrigin := by
  unfold validateOrigins at h
  dsimp only at h
  split_ifs at h with hempty
  obtain rfl := Except.ok.inj h
  refine List.filter_eq_self.mpr fun origin hmem => ?_
  cases hproblem : originProblem origin with
  | none => rfl
  | some problem =>
    have hmem := List.mem_filterMap.mpr ⟨origin, hmem, hproblem⟩
    rw [List.isEmpty_iff.mp hempty] at hmem
    cases hmem

/-! ## Scheme, host and port -/

/-- A character of a host name. -/
def isHostChar (c : Char) : Bool := !(['/', '?', '#', '@', ':', '[', ']', '\\'].contains c) && !isSpace c

/-- A character of a numeric address in brackets. -/
def isAddressChar (c : Char) : Bool :=
  c.isDigit || ('a' ≤ c && c ≤ 'f') || ('A' ≤ c && c ≤ 'F') || c == ':' || c == '.'

/-- A host name, or an address in brackets. -/
def isHost (host : List Char) : Bool :=
  match host with
  | [] => false
  | '[' :: rest => rest.getLast? == some ']' && !rest.dropLast.isEmpty && rest.dropLast.all isAddressChar
  | _ => host.all isHostChar

/-- A port with its colon, or nothing. -/
def isPortSuffix (text : List Char) : Bool :=
  match text with
  | [] => true
  | c :: port => c == ':' && !port.isEmpty && port.all Char.isDigit

/-- A scheme, a host and perhaps a port: the scheme is `https` unless the host is the machine itself. -/
structure Origin where
  secure : Bool
  host : List Char
  port : List Char
  hostOk : isHost host = true
  portOk : isPortSuffix port = true
  development : secure = false → host = "localhost".toList ∨ host = "127.0.0.1".toList

/-- The text of an origin. -/
def Origin.text (o : Origin) : String :=
  String.ofList ((if o.secure then "https://" else "http://").toList ++ o.host ++ o.port)

theorem Origin.toList_text (o : Origin) :
    o.text.toList = (if o.secure then "https://" else "http://").toList ++ (o.host ++ o.port) := by
  rw [text, String.toList_ofList, List.append_assoc]

/-- The text is an origin and nothing else. -/
def IsSafeOrigin (text : String) : Prop := ∃ o : Origin, text = o.text

/-- What stands behind `https://` is a host and perhaps a port. -/
def isAuthority (text : List Char) : Bool :=
  isHost text ||
    match text.reverse.dropWhile Char.isDigit with
    | ':' :: host => isHost host.reverse && (text.reverse.head?.any Char.isDigit)
    | _ => false

/-- The text behind a prefix, if it has that prefix. -/
def behind (start : String) (text : String) : Option (List Char) :=
  if startsWith text start then some (text.toList.drop start.toList.length) else none

/-- Behind `https://` a host and perhaps a port; behind `http://localhost` and `http://127.0.0.1` perhaps a port. -/
def isPlainOrigin (text : String) : Bool :=
  (behind "https://" text).any isAuthority || (behind "http://localhost" text).any isPortSuffix ||
    (behind "http://127.0.0.1" text).any isPortSuffix

theorem behind_eq_some {start text : String} {rest : List Char} :
    behind start text = some rest ↔ text.toList = start.toList ++ rest := by
  unfold behind startsWith
  constructor
  · intro h
    split_ifs at h with hstart
    obtain rfl := Option.some.inj h
    obtain ⟨rest, hrest⟩ := List.isPrefixOf_iff_prefix.mp hstart
    rw [← hrest, List.drop_left]
  · intro h
    rw [h, if_pos (List.isPrefixOf_iff_prefix.mpr ⟨rest, rfl⟩), List.drop_left]

theorem isAuthority_iff {text : List Char} : isAuthority text = true ↔
    ∃ host port, isHost host = true ∧ isPortSuffix port = true ∧ text = host ++ port := by
  constructor
  · intro h
    rcases Bool.or_eq_true_iff.mp h with hhost | hport
    · exact ⟨text, [], hhost, rfl, (List.append_nil text).symm⟩
    · have hsplit := List.takeWhile_append_dropWhile (p := Char.isDigit) (l := text.reverse)
      split at hport
      · rename_i host hdrop
        rw [Bool.and_eq_true] at hport
        rw [hdrop] at hsplit
        have hdigits : ∀ c ∈ text.reverse.takeWhile Char.isDigit, c.isDigit = true :=
          List.all_eq_true.mp List.all_takeWhile
        generalize text.reverse.takeWhile Char.isDigit = digits at hsplit hdigits
        have htext : text = host.reverse ++ ':' :: digits.reverse := by
          rw [← List.reverse_reverse text, ← hsplit, List.reverse_append, List.reverse_cons, List.append_assoc]
          rfl
        have hne : digits ≠ [] := by
          rintro rfl
          rw [← hsplit] at hport
          cases hport.2
        refine ⟨host.reverse, ':' :: digits.reverse, hport.1, ?_, htext⟩
        unfold isPortSuffix
        simpa [hne] using hdigits
      · cases hport
  · rintro ⟨host, port, hhost, hport, rfl⟩
    unfold isAuthority
    cases port with
    | nil => rw [List.append_nil, hhost, Bool.true_or]
    | cons c port =>
      unfold isPortSuffix at hport
      simp only [Bool.and_eq_true, beq_iff_eq, Bool.not_eq_true', List.isEmpty_eq_false_iff, List.all_eq_true] at hport
      obtain ⟨⟨rfl, hne⟩, hdigits⟩ := hport
      have hreverse : (host ++ ':' :: port).reverse = port.reverse ++ ':' :: host.reverse := by
        rw [List.reverse_append, List.reverse_cons, List.append_assoc]
        rfl
      have hall : ∀ d ∈ port.reverse, d.isDigit = true := fun d hd => hdigits d (List.mem_reverse.mp hd)
      have hhead : (port.reverse ++ ':' :: host.reverse).head?.any Char.isDigit = true := by
        obtain ⟨d, ds, hcons⟩ := List.exists_cons_of_ne_nil (List.reverse_ne_nil_iff.mpr hne)
        rw [hcons]
        exact hall d (hcons ▸ List.mem_cons_self)
      rw [hreverse, List.dropWhile_append_of_pos hall, List.dropWhile_cons_of_neg (by decide), hhead]
      simp only [List.reverse_reverse, hhost, Bool.and_self, Bool.or_true]

/-- **The recogniser and the grammar agree.** -/
theorem isPlainOrigin_iff (text : String) : isPlainOrigin text = true ↔ IsSafeOrigin text := by
  have hbehind : ∀ (start : String) (p : List Char → Bool),
      (behind start text).any p = true ↔ ∃ rest, text.toList = start.toList ++ rest ∧ p rest = true := by
    intro start p
    simp only [Option.any_eq_true, behind_eq_some]
  unfold isPlainOrigin
  rw [Bool.or_eq_true, Bool.or_eq_true, hbehind, hbehind, hbehind]
  have hlocalhost : "http://localhost".toList = "http://".toList ++ "localhost".toList := by decide
  have hloopback : "http://127.0.0.1".toList = "http://".toList ++ "127.0.0.1".toList := by decide
  constructor
  · rintro ((⟨rest, htext, hrest⟩ | ⟨rest, htext, hrest⟩) | ⟨rest, htext, hrest⟩)
    · obtain ⟨host, port, hhost, hport, rfl⟩ := isAuthority_iff.mp hrest
      refine ⟨⟨true, host, port, hhost, hport, nofun⟩, String.toList_inj.mp ?_⟩
      rw [htext, Origin.toList_text, if_pos rfl]
    · refine ⟨⟨false, "localhost".toList, rest, by decide, hrest, fun _ => .inl rfl⟩, String.toList_inj.mp ?_⟩
      rw [htext, Origin.toList_text, hlocalhost, if_neg Bool.false_ne_true, List.append_assoc]
    · refine ⟨⟨false, "127.0.0.1".toList, rest, by decide, hrest, fun _ => .inr rfl⟩, String.toList_inj.mp ?_⟩
      rw [htext, Origin.toList_text, hloopback, if_neg Bool.false_ne_true, List.append_assoc]
  · rintro ⟨⟨secure, host, port, hhost, hport, hdev⟩, rfl⟩
    rw [Origin.toList_text]
    cases secure with
    | true => exact .inl (.inl ⟨host ++ port, by rw [if_pos rfl], isAuthority_iff.mpr ⟨host, port, hhost, hport, rfl⟩⟩)
    | false =>
      rw [if_neg Bool.false_ne_true]
      rcases hdev rfl with rfl | rfl
      · exact .inl (.inr ⟨port, by rw [hlocalhost, List.append_assoc], hport⟩)
      · exact .inr ⟨port, by rw [hloopback, List.append_assoc], hport⟩

/-- **When an accepted list has safe origins only.** -/
theorem validate_origins_safe_iff {origins : List Json} {allowed : List String}
    (h : validateOrigins origins = .ok allowed) :
    (∀ origin ∈ allowed, IsSafeOrigin origin) ↔ ∀ raw ∈ origins, isPlainOrigin (cleanOrigin raw) = true := by
  rw [eq_of_validateOrigins h, List.forall_mem_map]
  exact forall₂_congr fun raw _ => (isPlainOrigin_iff _).symm

theorem validate_origins_safe_dev : IsSafeOrigin "http://localhost:3000" := by
  have haccepted : validateOrigins [.str "http://localhost:3000/"] = .ok ["http://localhost:3000"] := rfl
  exact (validate_origins_safe_iff haccepted).mpr (by decide +kernel) _ List.mem_cons_self

/-- A site of somebody else whose name begins with `localhost`. -/
theorem localhost_prefix_accepted :
    validateOrigins [.str "http://localhost.evil.example"] = .ok ["http://localhost.evil.example"] ∧
      ¬IsSafeOrigin "http://localhost.evil.example" := by
  refine ⟨rfl, fun h => ?_⟩
  have hplain := (isPlainOrigin_iff _).mpr h
  revert hplain
  decide +kernel

/-! ## The two surfaces -/

/-- `origin_allowed` of the chat: an empty list allows nothing. -/
def webchatOriginAllowed (lower : String → String) (origin : String) (allowed : List String) : Bool :=
  !allowed.isEmpty && (allowed.map (normaliseOrigin lower)).contains (normaliseOrigin lower origin)

/-- What the form allows the chat allows. -/
theorem webchat_of_form (lower : String → String) {origin : String} {allowed : List String} (hne : allowed ≠ [])
    (h : originAllowed origin allowed = true) : webchatOriginAllowed lower origin allowed = true := by
  unfold originAllowed at h
  unfold webchatOriginAllowed
  rw [List.isEmpty_eq_false_iff.mpr hne] at h ⊢
  have hmem : origin ∈ allowed := List.contains_iff_mem.mp h
  exact List.contains_iff_mem.mpr (List.mem_map_of_mem hmem)

/-- **When form and chat agree on a header**, for any list that is not empty: it is listed as it is spelled, or it is
no other spelling of a listed origin. -/
theorem origins_agree_iff (lower : String → String) {allowed : List String} (hne : allowed ≠ []) (origin : String) :
    originAllowed origin allowed = webchatOriginAllowed lower origin allowed ↔
      origin ∈ allowed ∨ ∀ listed ∈ allowed, normaliseOrigin lower origin ≠ normaliseOrigin lower listed := by
  have hform : originAllowed origin allowed = true ↔ origin ∈ allowed := by
    unfold originAllowed
    rw [List.isEmpty_eq_false_iff.mpr hne, Bool.false_or, List.contains_iff_mem]
  have hchat : webchatOriginAllowed lower origin allowed = true ↔
      ∃ listed ∈ allowed, normaliseOrigin lower origin = normaliseOrigin lower listed := by
    unfold webchatOriginAllowed
    rw [List.isEmpty_eq_false_iff.mpr hne, Bool.not_false, Bool.true_and, List.contains_iff_mem, List.mem_map]
    exact ⟨fun ⟨a, ha, heq⟩ => ⟨a, ha, heq.symm⟩, fun ⟨a, ha, heq⟩ => ⟨a, ha, heq.symm⟩⟩
  rw [Bool.eq_iff_iff, hform, hchat]
  constructor
  · intro hagree
    by_cases hmem : origin ∈ allowed
    · exact .inl hmem
    · exact .inr fun listed hlisted heq => hmem (hagree.mpr ⟨listed, hlisted, heq⟩)
  · rintro (hmem | hother)
    · exact ⟨fun _ => ⟨origin, hmem, rfl⟩, fun _ => hmem⟩
    · refine ⟨fun hmem => absurd rfl (hother origin hmem), ?_⟩
      rintro ⟨listed, hlisted, heq⟩
      exact absurd heq (hother listed hlisted)

theorem origins_agree_shop : originAllowed "https://shop.in" ["https://shop.in"] =
    webchatOriginAllowed Py.lower "https://shop.in" ["https://shop.in"] :=
  (origins_agree_iff Py.lower (by decide) "https://shop.in").mpr (.inl List.mem_cons_self)

/-- A list with a capital letter in it: browsers send the header in lower case. -/
theorem capital_origin_disagrees : validateOrigins [.str "https://Shop.in"] = .ok ["https://Shop.in"] ∧
    originAllowed "https://shop.in" ["https://Shop.in"] = false ∧
    webchatOriginAllowed Py.lower "https://shop.in" ["https://Shop.in"] = true :=
  ⟨rfl, by decide +kernel, by decide +kernel⟩

end RevenueOS.Leads
