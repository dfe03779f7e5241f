import RevenueOS.Lib.Base64
import RevenueOS.Lib.OrderBy
import RevenueOS.Workflows.Triggers
import Mathlib.Data.String.Basic

/-!
# RevenueOS.Shared.Pagination — cursors and pages

`clamp_page_size`, `encode_cursor` and `decode_cursor` (`shared/pagination.py`) and `paginate_cursor`
(`infrastructure/database/repositories/base.py`).  A page is read with one row more than its size; its cursor is the
id of its last row, and the next page is what lies beyond that id.

* `readsAll_iff`: a statement with an order of its own is read completely exactly if the cuts between its pages are
  cuts of the ids too.
* `keyset_exact`: without an order of its own every row is read once, in the order of the ids; rows that come and go
  between the pages change nothing for the others.

`json` and `uuid` are given by what the cursors need of them (`CursorText`); base 64 and UTF-8 are computed.
-/

namespace RevenueOS.Shared

open RevenueOS.Lib RevenueOS.Py RevenueOS.Workflows

/-! ## `pagination.py` -/

def maxPageSize : ℤ := 200

def defaultPageSize : ℕ := 50

def minPageSize : ℤ := 1

/-- `clamp_page_size`. -/
def clampPageSize : Option ℤ → ℕ
  | none => defaultPageSize
  | some value => (max minPageSize (min maxPageSize value)).toNat

theorem clampPageSize_bounds (value : Option ℤ) : 1 ≤ clampPageSize value ∧ clampPageSize value ≤ 200 := by
  cases value with
  | none => decide
  | some value =>
    simp only [clampPageSize, minPageSize, maxPageSize]
    omega

/-- The texts of the ids and of the payloads.  `none` stands for an exception; the payloads that the code writes hold
the text of one id. -/
structure CursorText (Id : Type) where
  /-- `json.dumps`, with its compact separators and sorted keys. -/
  dumps : Dict → String
  /-- `json.loads`. -/
  loads : String → Option Json
  /-- `str(id)`. -/
  str : Id → String
  /-- `UUID(text)`. -/
  uuid : String → Option Id
  loads_empty : loads "" = none
  loads_dumps : ∀ id, loads (dumps [("id", .str (str id))]) = some (.obj [("id", .str (str id))])
  uuid_str : ∀ id, uuid (str id) = some id

structure Page (Row : Type) where
  items : List Row
  nextCursor : Option String
  pageSize : ℕ

section Cursors

variable {Id : Type} (text : CursorText Id)

/-- `encode_cursor`. -/
def encodeCursor (payload : Dict) : String :=
  String.ofList (Base64.strip (Base64.encode (text.dumps payload).toByteArray.data.toList))

/-- `decode_cursor`. -/
def decodeCursor (cursor : String) : Except PyError Dict :=
  match (Base64.decode (Base64.pad cursor.toList)).bind fun bytes =>
      (String.fromUTF8? ⟨bytes.toArray⟩).bind text.loads with
  | some (.obj payload) => .ok payload
  | _ => .error .valueError

/-- `UUID(payload["id"])`. -/
def payloadId (payload : Dict) : Except PyError Id :=
  match payload.lookup "id" with
  | none => .error .keyError
  | some (.str s) =>
    match text.uuid s with
    | some id => .ok id
    | none => .error .valueError
  | some .null => .error .typeError
  | some _ => .error .attributeError

/-- The id that a page begins after; an empty cursor is none. -/
def lastId (cursor : Option String) : Except PyError (Option Id) :=
  match cursor with
  | none => .ok none
  | some cursor => if cursor = "" then .ok none else do return some (← payloadId text (← decodeCursor text cursor))

/-- The cursor of an id. -/
def cursorOf (id : Id) : String := encodeCursor text [("id", .str (text.str id))]

variable {text}

/-- A cursor is read back as the payload that was written, when `json` does so. -/
theorem decodeCursor_encodeCursor {payload : Dict} (h : text.loads (text.dumps payload) = some (.obj payload)) :
    decodeCursor text (encodeCursor text payload) = .ok payload := by
  have hbytes : Base64.decode (Base64.pad (encodeCursor text payload).toList) =
      some (text.dumps payload).toByteArray.data.toList := by
    unfold encodeCursor
    rw [String.toList_ofList, Base64.decode_pad_strip]
  have hutf8 : String.fromUTF8? ⟨(text.dumps payload).toByteArray.data.toList.toArray⟩ =
      some (text.dumps payload) := by
    unfold String.fromUTF8?
    exact dif_pos (text.dumps payload).isValidUTF8
  unfold decodeCursor
  rw [hbytes, Option.bind_some, hutf8, Option.bind_some, h]

theorem cursorOf_ne_empty (id : Id) : cursorOf text id ≠ "" := by
  intro hempty
  have hdecode := decodeCursor_encodeCursor (text.loads_dumps id)
  rw [show encodeCursor text _ = "" from hempty] at hdecode
  have hnone : decodeCursor text "" = .error .valueError := by
    have hutf8 : String.fromUTF8? ⟨([] : List UInt8).toArray⟩ = some "" := dif_pos ByteArray.isValidUTF8_empty
    unfold decodeCursor
    rw [show Base64.decode (Base64.pad "".toList) = some [] from rfl, Option.bind_some, hutf8, Option.bind_some,
      text.loads_empty]
  rw [hnone] at hdecode
  cases hdecode

theorem lastId_cursorOf (last : Option Id) : lastId text (last.map (cursorOf text)) = .ok last := by
  cases last with
  | none => rfl
  | some id =>
    show (if cursorOf text id = "" then _ else _) = _
    rw [if_neg (cursorOf_ne_empty id)]
    unfold cursorOf
    rw [decodeCursor_encodeCursor (text.loads_dumps id)]
    have hid : payloadId text [("id", .str (text.str id))] = .ok id := by
      unfold payloadId
      rw [show ([("id", Json.str (text.str id))] : Dict).lookup "id" = some (.str (text.str id)) from rfl]
      dsimp only
      rw [text.uuid_str]
    show (payloadId text [("id", .str (text.str id))]).map some = .ok (some id)
    rw [hid]
    rfl

end Cursors

/-! ## `paginate_cursor` -/

section Paging

variable {Row Id : Type} [LinearOrder Id]

/-- The first id comes before the second. -/
def Ahead (desc : Bool) (a b : Id) : Prop := if desc then b < a else a < b

instance (desc : Bool) : DecidableRel (@Ahead Id _ desc) :=
  fun a b => inferInstanceAs (Decidable (if desc then b < a else a < b))

/-- A statement: the rows that its conditions leave, and the order that it was given. -/
structure Statement (Row : Type) where
  rows : List Row
  order : OrderBy Row

variable (text : CursorText Id) (id : Row → Id)

/-- The condition on the id. -/
def beyond (desc : Bool) (last : Option Id) (row : Row) : Bool :=
  match last with
  | none => true
  | some last => Ahead desc last (id row)

/-- The order of the statement, and then that of the ids. -/
def Statement.fullOrder (stmt : Statement Row) (desc : Bool) : OrderBy Row :=
  stmt.order.thenBy (if desc then .desc id else .asc id)

def paginateCursor (stmt : Statement Row) (pageSize : Option ℤ) (orderDesc : Bool) (cursor : Option String) :
    Except PyError (Page Row) := do
  let size := clampPageSize pageSize
  let last ← lastId text cursor
  let rows := ((stmt.fullOrder id orderDesc).sort (stmt.rows.filter (beyond id orderDesc last))).take (size + 1)
  let hasMore := size < rows.length
  let items := rows.take size
  return ⟨items, if hasMore then items.getLast?.map fun row => cursorOf text (id row) else none, size⟩

/-! ### One page -/

/-- The id that the next page begins after, when these rows are left. -/
def nextId (size : ℕ) (rows : List Row) : Option Id :=
  if size < rows.length then (rows.take size).getLast?.map id else none

/-- The page of these rows. -/
def pageOf (size : ℕ) (rows : List Row) : Page Row :=
  ⟨rows.take size, (nextId id size rows).map (cursorOf text), size⟩

variable {text id} {desc : Bool}

theorem Ahead.trans {a b c : Id} (hab : Ahead desc a b) (hbc : Ahead desc b c) : Ahead desc a c := by
  cases desc with
  | false => exact lt_trans hab hbc
  | true => exact lt_trans hbc hab

theorem Ahead.irrefl (a : Id) : ¬ Ahead desc a a := by
  cases desc with
  | false => exact lt_irrefl a
  | true => exact lt_irrefl a

theorem Ahead.asymm {a b : Id} (hab : Ahead desc a b) : ¬ Ahead desc b a :=
  fun hba => Ahead.irrefl a (hab.trans hba)

theorem Ahead.total {a b : Id} (h : a ≠ b) : Ahead desc a b ∨ Ahead desc b a := by
  cases desc with
  | false => exact lt_or_gt_of_ne h
  | true => exact (lt_or_gt_of_ne h).symm

omit [LinearOrder Id] in
theorem eq_of_id {rows : List Row} (h : (rows.map id).Nodup) {a b : Row} (ha : a ∈ rows) (hb : b ∈ rows)
    (hid : id a = id b) : a = b := List.inj_on_of_nodup_map h ha hb hid

/-- The full order tells rows of different ids apart. -/
theorem fullOrder_apart {stmt : Statement Row} (h : (stmt.rows.map id).Nodup) : ∀ a ∈ stmt.rows, ∀ b ∈ stmt.rows,
    (stmt.fullOrder id desc).le a b = true → (stmt.fullOrder id desc).le b a = true → a = b := by
  intro a ha b hb hab hba
  refine eq_of_id h ha hb ?_
  unfold Statement.fullOrder OrderBy.thenBy at hab hba
  simp only [Bool.and_eq_true, Bool.or_eq_true, Bool.not_eq_true'] at hab hba
  have hab' := hab.2.resolve_left (by rw [hba.1]; exact Bool.noConfusion)
  have hba' := hba.2.resolve_left (by rw [hab.1]; exact Bool.noConfusion)
  cases desc with
  | false => exact le_antisymm (of_decide_eq_true hab') (of_decide_eq_true hba')
  | true => exact le_antisymm (of_decide_eq_true hba') (of_decide_eq_true hab')

/-- **A page is a cut of the sorted rows beyond its cursor.** -/
theorem paginateCursor_eq {stmt : Statement Row} (h : (stmt.rows.map id).Nodup) (last : Option Id)
    (pageSize : Option ℤ) : paginateCursor text id stmt pageSize desc (last.map (cursorOf text)) =
      .ok (pageOf text id (clampPageSize pageSize)
        (((stmt.fullOrder id desc).sort stmt.rows).filter (beyond id desc last))) := by
  unfold paginateCursor pageOf nextId
  rw [lastId_cursorOf, ← OrderBy.sort_filter (fullOrder_apart h)]
  dsimp only [bind, Except.bind, pure, Except.pure]
  generalize (stmt.fullOrder id desc).sort (stmt.rows.filter (beyond id desc last)) = rows
  generalize clampPageSize pageSize = size
  have hmore : size < (rows.take (size + 1)).length ↔ size < rows.length := by
    rw [List.length_take]
    omega
  have hitems : (rows.take (size + 1)).take size = rows.take size := by
    rw [List.take_take, min_eq_left (Nat.le_succ size)]
  rw [hitems]
  by_cases hlt : size < rows.length
  · rw [if_pos (hmore.mpr hlt), if_pos hlt, Option.map_map]
    rfl
  · rw [if_neg (fun h => hlt (hmore.mp h)), if_neg hlt]
    rfl

/-- Rows in the order of a statement without an order of its own are in the order of their ids. -/
theorem pairwise_ahead {rows : List Row} (h : (rows.map id).Nodup) :
    ((Statement.fullOrder id ⟨rows, .unordered⟩ desc).sort rows).Pairwise fun a b => Ahead desc (id a) (id b) := by
  have hsorted := (Statement.fullOrder id ⟨rows, .unordered⟩ desc).pairwise_sort rows
  have hne : ((Statement.fullOrder id ⟨rows, .unordered⟩ desc).sort rows).Pairwise fun a b => id a ≠ id b :=
    List.pairwise_map.mp (((OrderBy.perm_sort _ rows).map id).nodup_iff.mpr h)
  refine (hsorted.and hne).imp fun {a b} hab => ?_
  obtain ⟨hle, hab⟩ := hab
  have hid : (if desc then OrderBy.desc id else OrderBy.asc id).le a b = true := by
    simpa [Statement.fullOrder, OrderBy.thenBy, OrderBy.unordered] using hle
  cases desc with
  | false => exact lt_of_le_of_ne (of_decide_eq_true hid) hab
  | true => exact lt_of_le_of_ne (of_decide_eq_true hid) hab.symm

omit [LinearOrder Id] in
/-- A page that is not the last ends with its cursor. -/
theorem exists_of_more {size : ℕ} {rows : List Row} (hsize : 0 < size) (hmore : size < rows.length) :
    ∃ row, rows[size - 1]? = some row ∧ nextId id size rows = some (id row) ∧
      rows.take size = rows.take (size - 1) ++ [row] := by
  have hlt : size - 1 < rows.length := by omega
  have htake : rows.take size = rows.take (size - 1) ++ [rows[size - 1]] := by
    rw [List.take_append_getElem hlt, Nat.sub_add_cancel hsize]
  refine ⟨rows[size - 1], List.getElem?_eq_getElem hlt, ?_, htake⟩
  unfold nextId
  rw [if_pos hmore, htake, List.getLast?_concat]
  rfl

omit [LinearOrder Id] in
theorem nextId_of_le {size : ℕ} {rows : List Row} (h : rows.length ≤ size) : nextId id size rows = none :=
  if_neg (not_lt.mpr h)

/-- What lies beyond a row that lies beyond the last one. -/
theorem filter_beyond {last : Option Id} {row : Row} {rows : List Row} (h : beyond id desc last row = true) :
    rows.filter (beyond id desc (some (id row))) =
      (rows.filter (beyond id desc last)).filter (beyond id desc (some (id row))) := by
  rw [List.filter_filter]
  refine List.filter_congr fun a _ => ?_
  cases hrow : beyond id desc (some (id row)) a with
  | false => rfl
  | true =>
    cases last with
    | none => rfl
    | some last =>
      have hahead : Ahead desc last (id a) := Ahead.trans (of_decide_eq_true h) (of_decide_eq_true hrow)
      simpa [beyond] using hahead

/-! ## Following the cursors -/

variable (text id desc)

/-- The pages that are read one after the other, until one has no cursor. -/
def follow {ε : Type} : List (Option String → Except ε (Page Row)) → Option String → Except ε (List (Page Row))
  | [], _ => .ok []
  | read :: reads, cursor => do
    let page ← read cursor
    match page.nextCursor with
    | none => return [page]
    | some next => return page :: (← follow reads (some next))

/-- The last page has no cursor. -/
def Ended (pages : List (Page Row)) : Prop := ∃ page ∈ pages.getLast?, page.nextCursor = none

def visited (pages : List (Page Row)) : List Row := pages.flatMap Page.items

/-- At every cut between two pages the ids are cut in the same way: those of the rows before come before that of the
last row of the page, and those of the rows after come after it. -/
def PageCuts (size : ℕ) (rows : List Row) : Prop :=
  ∀ (k : ℕ) (row : Row), rows[k]? = some row → size ∣ k + 1 → k + 1 < rows.length →
    (∀ a ∈ rows.take k, Ahead desc (id a) (id row)) ∧ ∀ a ∈ rows.drop (k + 1), Ahead desc (id row) (id a)

variable {text id desc}

theorem ended_cons {page : Page Row} {pages : List (Page Row)} (h : page.nextCursor ≠ none) :
    Ended (page :: pages) ↔ Ended pages := by
  cases pages with
  | nil => simpa [Ended] using h
  | cons next rest =>
    unfold Ended
    rw [List.getLast?_cons_cons]

theorem visited_cons (page : Page Row) (pages : List (Page Row)) :
    visited (page :: pages) = page.items ++ visited pages := List.flatMap_cons

omit [LinearOrder Id] in
/-- What is read when these rows are left: a last page, or a page and then what lies beyond its last row. -/
theorem follow_cases {ε : Type} {size : ℕ} (hsize : 0 < size) {rows : List Row}
    {read : Option String → Except ε (Page Row)} {reads : List (Option String → Except ε (Page Row))}
    {cursor : Option String}
    (hread : read cursor = .ok (pageOf text id size rows)) :
    rows.length ≤ size ∧ follow (read :: reads) cursor = .ok [pageOf text id size rows] ∧
        Ended [pageOf text id size rows] ∨
      ∃ row, size < rows.length ∧ rows[size - 1]? = some row ∧ rows.take size = rows.take (size - 1) ++ [row] ∧
        (∀ rest, Ended (pageOf text id size rows :: rest) ↔ Ended rest) ∧
        ∀ pages, follow (read :: reads) cursor = .ok pages ↔
          ∃ rest, follow reads ((some (id row)).map (cursorOf text)) = .ok rest ∧
            pages = pageOf text id size rows :: rest := by
  rcases Nat.lt_or_ge size rows.length with hmore | hle
  · obtain ⟨row, hrow, hnext, htake⟩ := @exists_of_more Row Id id _ rows hsize hmore
    have hcursor : (pageOf text id size rows).nextCursor = some (cursorOf text (id row)) := by
      unfold pageOf
      rw [hnext]
      rfl
    refine Or.inr ⟨row, hmore, hrow, htake, fun rest => ended_cons ?_, fun pages => ?_⟩
    · rw [hcursor]
      exact Option.some_ne_none _
    · rw [follow, hread, Option.map_some]
      dsimp only [bind, Except.bind, pure, Except.pure]
      rw [hcursor]
      dsimp only
      cases follow reads (some (cursorOf text (id row))) with
      | error e => simp
      | ok rest => simp [eq_comm]
  · have hnext : (pageOf text id size rows).nextCursor = none := by
      unfold pageOf
      rw [nextId_of_le hle]
      rfl
    refine Or.inl ⟨hle, ?_, ⟨_, rfl, hnext⟩⟩
    rw [follow, hread]
    dsimp only [bind, Except.bind, pure, Except.pure]
    rw [hnext]

/-! ### Fixed rows -/

theorem pageCuts_of_le {size : ℕ} {rows : List Row} (h : rows.length ≤ size) : PageCuts id desc size rows := by
  intro k row _ hdvd hlt
  have hle := Nat.le_of_dvd (Nat.succ_pos k) hdvd
  omega

/-- Rows in the order of their ids are cut as the ids. -/
theorem pageCuts_of_pairwise {size : ℕ} {rows : List Row} (h : rows.Pairwise fun a b => Ahead desc (id a) (id b)) :
    PageCuts id desc size rows := by
  intro k row hrow _ _
  obtain ⟨hlt, rfl⟩ := List.getElem?_eq_some_iff.mp hrow
  rw [← List.take_append_drop k rows, List.drop_eq_getElem_cons hlt] at h
  obtain ⟨-, hdrop, hcross⟩ := List.pairwise_append.mp h
  exact ⟨fun a ha => hcross a ha _ List.mem_cons_self, (List.pairwise_cons.mp hdrop).1⟩

/-- The first cut, and those of the rest. -/
theorem pageCuts_iff {size : ℕ} {rows : List Row} {row : Row} (hsize : 0 < size) (hmore : size < rows.length)
    (hrow : rows[size - 1]? = some row) (htake : rows.take size = rows.take (size - 1) ++ [row]) :
    PageCuts id desc size rows ↔ ((∀ a ∈ rows.take (size - 1), Ahead desc (id a) (id row)) ∧
      ∀ a ∈ rows.drop size, Ahead desc (id row) (id a)) ∧ PageCuts id desc size (rows.drop size) := by
  constructor
  · intro h
    have hfirst := h (size - 1) row hrow (by rw [Nat.sub_add_cancel hsize]) (by omega)
    rw [Nat.sub_add_cancel hsize] at hfirst
    refine ⟨hfirst, fun k a ha hdvd hlt => ?_⟩
    rw [List.getElem?_drop] at ha
    rw [List.length_drop] at hlt
    obtain ⟨hbefore, hafter⟩ := h (size + k) a ha ((Nat.dvd_add_right (dvd_refl size)).mpr hdvd) (by omega)
    refine ⟨fun b hb => hbefore b ?_, fun b hb => hafter b ?_⟩
    · rw [List.take_add]
      exact List.mem_append_right _ hb
    · rwa [List.drop_drop, ← Nat.add_assoc] at hb
  · rintro ⟨⟨hbefore, hafter⟩, hrest⟩ k a ha hdvd hlt
    by_cases hfirst : k + 1 = size
    · obtain rfl : k = size - 1 := by omega
      obtain rfl : row = a := Option.some.inj (hrow.symm.trans ha)
      rw [Nat.sub_add_cancel hsize]
      exact ⟨hbefore, hafter⟩
    · -- a later cut is one of the rest, and the first page lies before it
      have hle := Nat.le_of_dvd (Nat.succ_pos k) hdvd
      obtain ⟨q, rfl⟩ : ∃ q, k = size + q := ⟨k - size, by omega⟩
      have hin : (rows.drop size)[q]? = some a := by rw [List.getElem?_drop, ha]
      obtain ⟨hpage, hend⟩ := hrest q a hin ((Nat.dvd_add_right (dvd_refl size)).mp hdvd)
        (by rw [List.length_drop]; omega)
      have hlater : Ahead desc (id row) (id a) := hafter a (List.mem_of_getElem? hin)
      refine ⟨fun b hb => ?_, fun b hb => hend b ?_⟩
      · rw [List.take_add, htake, List.append_assoc] at hb
        rcases List.mem_append.mp hb with hb | hb
        · exact (hbefore b hb).trans hlater
        · rcases List.mem_cons.mp hb with rfl | hb
          · exact hlater
          · exact hpage b hb
      · rwa [List.drop_drop, ← Nat.add_assoc]

/-- The pages of some rows in their order, beyond any cursor. -/
def PagesOf {ε : Type} (text : CursorText Id) (id : Row → Id) (desc : Bool) (size : ℕ) (sorted : List Row)
    (read : Option String → Except ε (Page Row)) : Prop :=
  ∀ last : Option Id,
    read (last.map (cursorOf text)) = .ok (pageOf text id size (sorted.filter (beyond id desc last)))

/-- Following the cursors of a reader from the first page visits all rows, once each. -/
def ReadsAll {ε : Type} (read : Option String → Except ε (Page Row)) (rows : List Row) : Prop :=
  ∃ (n : ℕ) (pages : List (Page Row)), follow (List.replicate n read) none = .ok pages ∧ Ended pages ∧
    (visited pages).Perm rows

section Fixed

variable {ε : Type} {size : ℕ} {sorted : List Row} {read : Option String → Except ε (Page Row)}

/-- What is left beyond the last row of a page, when the ids are cut as the rows. -/
theorem filter_eq_drop {rows : List Row} {row : Row}
    (hbefore : ∀ a ∈ rows.take (size - 1), Ahead desc (id a) (id row))
    (hafter : ∀ a ∈ rows.drop size, Ahead desc (id row) (id a))
    (htake : rows.take size = rows.take (size - 1) ++ [row]) :
    rows.filter (beyond id desc (some (id row))) = rows.drop size := by
  have hpage : (rows.take size).filter (beyond id desc (some (id row))) = [] := by
    refine List.filter_eq_nil_iff.mpr fun a ha => ?_
    rw [htake] at ha
    rcases List.mem_append.mp ha with ha | ha
    · simpa [beyond] using (hbefore a ha).asymm
    · rw [List.mem_singleton.mp ha]
      simpa [beyond] using Ahead.irrefl (id row)
  have hrest : (rows.drop size).filter (beyond id desc (some (id row))) = rows.drop size :=
    List.filter_eq_self.mpr fun a ha => by simpa [beyond] using hafter a ha
  calc rows.filter (beyond id desc (some (id row)))
      = (rows.take size ++ rows.drop size).filter (beyond id desc (some (id row))) := by rw [List.take_append_drop]
    _ = rows.drop size := by rw [List.filter_append, hpage, hrest, List.nil_append]

/-- Every row is read, in the order of the statement, when the ids are cut as the rows. -/
theorem follow_complete (hsize : 0 < size) (h : PagesOf text id desc size sorted read) :
    ∀ (n : ℕ) (last : Option Id) (rows : List Row), sorted.filter (beyond id desc last) = rows → rows.length < n →
    PageCuts id desc size rows → ∃ pages, follow (List.replicate n read) (last.map (cursorOf text)) = .ok pages ∧
      Ended pages ∧ visited pages = rows := by
  intro n
  induction n with
  | zero => exact fun _ _ _ hlt => absurd hlt (Nat.not_lt_zero _)
  | succ n ih =>
    intro last rows hrows hlt hcuts
    have hread := h last
    rw [hrows] at hread
    rw [List.replicate_succ]
    rcases follow_cases hsize hread with ⟨hle, hlast, hended⟩ | ⟨row, hmore, hrow, htake, hends, hfollow⟩
    · refine ⟨_, hlast, hended, ?_⟩
      rw [visited_cons]
      show rows.take size ++ [] = rows
      rw [List.append_nil, List.take_of_length_le hle]
    · obtain ⟨⟨hbefore, hafter⟩, hrest⟩ := (pageCuts_iff hsize hmore hrow htake).mp hcuts
      have hbeyond : beyond id desc last row = true := by
        have hmem := List.mem_of_getElem? hrow
        rw [← hrows] at hmem
        exact List.of_mem_filter hmem
      have hleft : sorted.filter (beyond id desc (some (id row))) =
          rows.drop size := by
        rw [filter_beyond hbeyond, hrows, filter_eq_drop hbefore hafter htake]
      obtain ⟨pages, hpages, hended, hvisited⟩ := ih (some (id row)) _ hleft (by rw [List.length_drop]; omega) hrest
      refine ⟨_, (hfollow _).mpr ⟨pages, hpages, rfl⟩, (hends pages).mpr hended, ?_⟩
      rw [visited_cons, hvisited]
      exact List.take_append_drop _ rows

/-- All that is read lies beyond the cursor. -/
theorem visited_beyond (hsize : 0 < size) (h : PagesOf text id desc size sorted read) :
    ∀ (n : ℕ) (last : Option Id) {pages : List (Page Row)},
    follow (List.replicate n read) (last.map (cursorOf text)) = .ok pages →
    ∀ a ∈ visited pages, beyond id desc last a = true := by
  intro n
  induction n with
  | zero =>
    intro last pages hpages a ha
    obtain rfl : [] = pages := Except.ok.inj hpages
    exact absurd ha List.not_mem_nil
  | succ n ih =>
    intro last pages hpages a ha
    have hread := h last
    generalize hrows : sorted.filter (beyond id desc last) = rows at hread
    have hin : ∀ b ∈ rows, beyond id desc last b = true := by
      intro b hb
      rw [← hrows] at hb
      exact List.of_mem_filter hb
    have hpage : ∀ b ∈ (pageOf text id size rows).items, beyond id desc last b = true :=
      fun b hb => hin b (List.mem_of_mem_take hb)
    rw [List.replicate_succ] at hpages
    rcases follow_cases hsize hread with ⟨-, hlast, -⟩ | ⟨row, -, hrow, -, -, hfollow⟩
    · rw [hlast] at hpages
      obtain rfl := Except.ok.inj hpages
      rw [visited_cons] at ha
      exact hpage a ((List.mem_append.mp ha).resolve_right List.not_mem_nil)
    · obtain ⟨rest, hrest, rfl⟩ := (hfollow pages).mp hpages
      rw [visited_cons] at ha
      rcases List.mem_append.mp ha with ha | ha
      · exact hpage a ha
      · have hrow := hin row (List.mem_of_getElem? hrow)
        have ha := ih (some (id row)) hrest a ha
        cases last with
        | none => rfl
        | some last => exact decide_eq_true (Ahead.trans (of_decide_eq_true hrow) (of_decide_eq_true ha))

/-- The first row beyond the cursor is read. -/
theorem mem_visited (hsize : 0 < size) (h : PagesOf text id desc size sorted read) {n : ℕ} {last : Option Id}
    {row : Row} {rows : List Row} (hrows : sorted.filter (beyond id desc last) = row :: rows)
    {pages : List (Page Row)} (hpages : follow (List.replicate n read) (last.map (cursorOf text)) = .ok pages)
    (hended : Ended pages) : row ∈ visited pages := by
  have hread := h last
  rw [hrows] at hread
  have hitems : row ∈ (pageOf text id size (row :: rows)).items := by
    show row ∈ (row :: rows).take size
    rw [List.take_cons hsize]
    exact List.mem_cons_self
  cases n with
  | zero =>
    obtain rfl : [] = pages := Except.ok.inj hpages
    obtain ⟨page, hpage, -⟩ := hended
    cases hpage
  | succ n =>
    rw [List.replicate_succ] at hpages
    rcases follow_cases hsize hread with ⟨-, hlast, -⟩ | ⟨last, -, -, -, -, hfollow⟩
    · rw [hlast] at hpages
      obtain rfl := Except.ok.inj hpages
      rw [visited_cons]
      exact List.mem_append_left _ hitems
    · obtain ⟨rest, -, rfl⟩ := (hfollow pages).mp hpages
      rw [visited_cons]
      exact List.mem_append_left _ hitems

/-- The rows that a complete reading visits once each are cut as their ids. -/
theorem cuts_of_follow (hsize : 0 < size) (h : PagesOf text id desc size sorted read)
    (hids : (sorted.map id).Nodup) : ∀ (n : ℕ) (last : Option Id) (rows : List Row),
    sorted.filter (beyond id desc last) = rows → ∀ {pages : List (Page Row)},
    follow (List.replicate n read) (last.map (cursorOf text)) = .ok pages → Ended pages →
    (visited pages).Perm rows → PageCuts id desc size rows := by
  intro n
  induction n with
  | zero =>
    intro last rows _ pages hpages hended
    obtain rfl : [] = pages := Except.ok.inj hpages
    obtain ⟨page, hpage, -⟩ := hended
    cases hpage
  | succ n ih =>
    intro last rows hrows pages hpages hended hperm
    have hread := h last
    rw [hrows] at hread
    rw [List.replicate_succ] at hpages
    rcases follow_cases hsize hread with ⟨hle, -, -⟩ | ⟨row, hmore, hrow, htake, hends, hfollow⟩
    · exact pageCuts_of_le hle
    · obtain ⟨rest, hrest, rfl⟩ := (hfollow pages).mp hpages
      have hbeyond : beyond id desc last row = true := by
        have hmem := List.mem_of_getElem? hrow
        rw [← hrows] at hmem
        exact List.of_mem_filter hmem
      have hnodup : (rows.map id).Nodup := by
        rw [← hrows]
        exact (List.filter_sublist.map id).nodup hids
      have hperm : (visited rest).Perm (rows.drop size) := by
        rw [visited_cons] at hperm
        have hparts : (rows.take size ++ visited rest).Perm
            (rows.take size ++ rows.drop size) := by
          rw [List.take_append_drop]
          exact hperm
        exact (List.perm_append_left_iff _).mp hparts
      have hleft : sorted.filter (beyond id desc (some (id row))) =
          rows.filter (beyond id desc (some (id row))) := by
        rw [filter_beyond hbeyond, hrows]
      have hafter : ∀ a ∈ rows.drop size, Ahead desc (id row) (id a) := by
        intro a ha
        exact of_decide_eq_true (visited_beyond hsize h n (some (id row)) hrest a (hperm.mem_iff.mpr ha))
      have hbefore : ∀ a ∈ rows.take (size - 1), Ahead desc (id a) (id row) := by
        intro a ha
        have hne : id a ≠ id row := by
          have hpage : ((rows.take size).map id).Nodup :=
            ((List.take_sublist _ rows).map id).nodup hnodup
          rw [htake, List.map_append] at hpage
          exact (List.nodup_append.mp hpage).2.2 _ (List.mem_map_of_mem ha) _ List.mem_cons_self
        refine (Ahead.total hne).resolve_right fun hback => ?_
        -- the row would be read again: the first such row begins the next page
        have hpage : a ∈ (rows.take size).filter (beyond id desc (some (id row))) := by
          refine List.mem_filter.mpr ⟨?_, decide_eq_true hback⟩
          rw [htake]
          exact List.mem_append_left _ ha
        obtain ⟨b, bs, hhead⟩ := List.exists_cons_of_ne_nil (List.ne_nil_of_mem hpage)
        have hb : b ∈ rows.take size := by
          refine List.mem_of_mem_filter (?_ : b ∈ List.filter (beyond id desc (some (id row))) _)
          rw [hhead]
          exact List.mem_cons_self
        have hfirst : rows.filter (beyond id desc (some (id row))) =
            b :: (bs ++ (rows.drop size).filter (beyond id desc (some (id row)))) := by
          rw [← List.cons_append, ← hhead, ← List.filter_append, List.take_append_drop]
        have hagain : b ∈ visited rest := mem_visited hsize h (hleft.trans hfirst) hrest ((hends rest).mp hended)
        exact List.disjoint_take_drop hnodup.of_map (le_refl _) hb (hperm.mem_iff.mp hagain)
      refine (pageCuts_iff hsize hmore hrow htake).mpr ⟨⟨hbefore, hafter⟩, ?_⟩
      rw [filter_eq_drop hbefore hafter htake] at hleft
      exact ih (some (id row)) _ hleft hrest ((hends rest).mp hended) hperm

/-- **When a list with an order of its own is read completely.** -/
theorem readsAll_iff (hsize : 0 < size) (h : PagesOf text id desc size sorted read) (hids : (sorted.map id).Nodup)
    {rows : List Row} (hperm : sorted.Perm rows) : ReadsAll read rows ↔ PageCuts id desc size sorted := by
  have hall : sorted.filter (beyond id desc none) = sorted := List.filter_eq_self.mpr fun _ _ => rfl
  constructor
  · rintro ⟨n, pages, hpages, hended, hvisited⟩
    exact cuts_of_follow hsize h hids n none sorted hall hpages hended (hvisited.trans hperm.symm)
  · intro hcuts
    obtain ⟨pages, hpages, hended, hvisited⟩ :=
      follow_complete hsize h (sorted.length + 1) none sorted hall (Nat.lt_succ_self _) hcuts
    exact ⟨_, pages, hpages, hended, hvisited ▸ hperm⟩

end Fixed

/-! ### Rows that come and go -/

variable {pageSize : Option ℤ}

/-- The statement without an order of its own, on the rows that are there. -/
def plain (rows : List Row) : Statement Row := ⟨rows, .unordered⟩

/-- A key that is there whenever a page is read is read, or still lies ahead. -/
def Reached (id : Row → Id) (desc : Bool) (pages : List (Page Row)) (key : Id) : Prop :=
  key ∈ (visited pages).map id ∨ ¬ Ended pages ∧ ∀ a ∈ visited pages, Ahead desc (id a) key

/-- Pages that are read from one table after another. -/
theorem follow_snapshots : ∀ (snapshots : List (List Row)) (last : Option Id),
    (∀ rows ∈ snapshots, (rows.map id).Nodup) →
    ∃ pages, follow (snapshots.map fun rows => paginateCursor text id (plain rows) pageSize desc)
        (last.map (cursorOf text)) = .ok pages ∧
      ((visited pages).Pairwise fun a b => Ahead desc (id a) (id b)) ∧
      (∀ a ∈ visited pages, beyond id desc last a = true) ∧
      ∀ key, (∀ l ∈ last, Ahead desc l key) → (∀ rows ∈ snapshots.take pages.length, key ∈ rows.map id) →
        Reached id desc pages key := by
  intro snapshots
  induction snapshots with
  | nil =>
    intro last _
    refine ⟨[], rfl, List.Pairwise.nil, fun a ha => absurd ha List.not_mem_nil, fun key _ _ => Or.inr ⟨?_, ?_⟩⟩
    · rintro ⟨page, hpage, -⟩
      cases hpage
    · exact fun a ha => absurd ha List.not_mem_nil
  | cons table snapshots ih =>
    intro last hnodup
    have htable := hnodup table List.mem_cons_self
    have hsize : 0 < clampPageSize pageSize := (clampPageSize_bounds pageSize).1
    have hread := @paginateCursor_eq Row Id _ text id desc (plain table) htable last pageSize
    have hsorted := (@pairwise_ahead Row Id _ id desc table htable).filter (beyond id desc last)
    have hmem : ∀ key, (∀ l ∈ last, Ahead desc l key) → key ∈ table.map id →
        ∃ a ∈ (((plain table).fullOrder id desc).sort table).filter (beyond id desc last), id a = key := by
      intro key hlast hkey
      obtain ⟨a, ha, rfl⟩ := List.mem_map.mp hkey
      refine ⟨a, List.mem_filter.mpr ⟨(OrderBy.perm_sort _ _).mem_iff.mpr ha, ?_⟩, rfl⟩
      cases last with
      | none => rfl
      | some l => exact decide_eq_true (hlast l rfl)
    have hbeyond : ∀ a ∈ (((plain table).fullOrder id desc).sort table).filter (beyond id desc last),
        beyond id desc last a = true := fun a ha => List.of_mem_filter ha
    change paginateCursor text id (plain table) pageSize desc _ = .ok (pageOf text id (clampPageSize pageSize)
      ((((plain table).fullOrder id desc).sort table).filter (beyond id desc last))) at hread
    change ((((plain table).fullOrder id desc).sort table).filter (beyond id desc last)).Pairwise _ at hsorted
    generalize (((plain table).fullOrder id desc).sort table).filter (beyond id desc last) = rows
      at hread hsorted hmem hbeyond
    rw [List.map_cons]
    rcases follow_cases hsize hread with ⟨hle, hlast, -⟩ | ⟨row, hmore, hrow, htake, hends, hfollow⟩
    · have hall : visited [pageOf text id (clampPageSize pageSize) rows] = rows := by
        rw [visited_cons]
        show rows.take (clampPageSize pageSize) ++ [] = rows
        rw [List.append_nil, List.take_of_length_le hle]
      refine ⟨_, hlast, by rwa [hall], by rwa [hall], fun key hkey hthere => Or.inl ?_⟩
      obtain ⟨a, ha, rfl⟩ := hmem key hkey (hthere table List.mem_cons_self)
      rw [hall]
      exact List.mem_map_of_mem ha
    · obtain ⟨rest, hrest, hpairs, hlater, hreached⟩ :=
        ih (some (id row)) fun rows hrows => hnodup rows (List.mem_cons_of_mem _ hrows)
      obtain ⟨⟨hbefore, hafter⟩, -⟩ := (pageCuts_iff hsize hmore hrow htake).mp (pageCuts_of_pairwise hsorted)
      -- what lies beyond the last row of the page lies beyond all of the page
      have hahead : ∀ a ∈ rows.take (clampPageSize pageSize), ∀ key, Ahead desc (id row) key →
          Ahead desc (id a) key := by
        intro a ha key hkey
        rw [htake] at ha
        rcases List.mem_append.mp ha with ha | ha
        · exact (hbefore a ha).trans hkey
        · rwa [List.mem_singleton.mp ha]
      have hrowBeyond := hbeyond row (List.mem_of_getElem? hrow)
      refine ⟨_, (hfollow _).mpr ⟨rest, hrest, rfl⟩, ?_, ?_, fun key hkey hthere => ?_⟩
      · rw [visited_cons]
        refine List.pairwise_append.mpr ⟨hsorted.sublist (List.take_sublist _ rows), hpairs, fun a ha b hb => ?_⟩
        exact hahead a ha (id b) (of_decide_eq_true (hlater b hb))
      · rw [visited_cons]
        intro a ha
        rcases List.mem_append.mp ha with ha | ha
        · exact hbeyond a (List.mem_of_mem_take ha)
        · have hrow : Ahead desc (id row) (id a) := of_decide_eq_true (hlater a ha)
          cases last with
          | none => rfl
          | some l => exact decide_eq_true (Ahead.trans (of_decide_eq_true hrowBeyond) hrow)
      · obtain ⟨a, ha, rfl⟩ := hmem key hkey (hthere table List.mem_cons_self)
        unfold Reached
        rw [visited_cons, hends, List.map_append]
        rw [← List.take_append_drop (clampPageSize pageSize) rows] at ha
        rcases List.mem_append.mp ha with ha | ha
        · exact Or.inl (List.mem_append_left _ (List.mem_map_of_mem ha))
        · have hkey := hafter a ha
          have hthere : ∀ rows ∈ snapshots.take rest.length, id a ∈ rows.map id :=
            fun rows hrows => hthere rows (List.mem_cons_of_mem _ hrows)
          have hkey' : ∀ l ∈ some (id row), Ahead desc l (id a) := by
            intro l hl
            rw [← Option.some.inj hl]
            exact hkey
          rcases hreached (id a) hkey' hthere with hread | ⟨hopen, hall⟩
          · exact Or.inl (List.mem_append_right _ hread)
          · refine Or.inr ⟨hopen, fun b hb => ?_⟩
            rcases List.mem_append.mp hb with hb | hb
            · exact hahead b hb (id a) hkey
            · exact hall b hb

/-- **Keyset pagination is exact.**  Fixed rows are all read, once each and in the order of their ids, within as many
pages as there are rows and one.  Rows that come and go between the pages do not make another one be skipped or
read again.  Cursors are read back. -/
theorem keyset_exact (text : CursorText Id) (id : Row → Id) (pageSize : Option ℤ) (desc : Bool) :
    (∀ rows : List Row, (rows.map id).Nodup →
      ∃ pages, follow (List.replicate (rows.length + 1) (paginateCursor text id (plain rows) pageSize desc)) none =
          .ok pages ∧ Ended pages ∧ (visited pages).Perm rows ∧
        (visited pages).Pairwise fun a b => Ahead desc (id a) (id b)) ∧
    (∀ snapshots : List (List Row), (∀ rows ∈ snapshots, (rows.map id).Nodup) →
      ∃ pages, follow (snapshots.map fun rows => paginateCursor text id (plain rows) pageSize desc) none = .ok pages ∧
        ((visited pages).map id).Nodup ∧
        ∀ key, (∀ rows ∈ snapshots.take pages.length, key ∈ rows.map id) → Reached id desc pages key) ∧
    ∀ payload : Dict, text.loads (text.dumps payload) = some (.obj payload) →
      decodeCursor text (encodeCursor text payload) = .ok payload := by
  refine ⟨fun rows hnodup => ?_, fun snapshots hnodup => ?_, fun payload hjson => decodeCursor_encodeCursor hjson⟩
  · have hsorted := @pairwise_ahead Row Id _ id desc rows hnodup
    have hall : (((plain rows).fullOrder id desc).sort rows).filter (beyond id desc none) =
        ((plain rows).fullOrder id desc).sort rows := List.filter_eq_self.mpr fun _ _ => rfl
    obtain ⟨pages, hpages, hended, hvisited⟩ := follow_complete (clampPageSize_bounds pageSize).1
      (fun last => paginateCursor_eq hnodup last pageSize) (rows.length + 1) none _ hall
      (by rw [(OrderBy.perm_sort _ _).length_eq]; exact Nat.lt_succ_self _) (pageCuts_of_pairwise hsorted)
    refine ⟨pages, hpages, hended, ?_, ?_⟩
    · rw [hvisited]
      exact OrderBy.perm_sort _ _
    · rw [hvisited]
      exact hsorted
  · obtain ⟨pages, hpages, hpairs, -, hreached⟩ :=
      @follow_snapshots Row Id _ text id desc pageSize snapshots none hnodup
    refine ⟨pages, hpages, ?_, fun key hthere => hreached key (fun _ hl => by cases hl) hthere⟩
    refine List.pairwise_map.mpr (hpairs.imp fun {a b} hab heq => ?_)
    rw [heq] at hab
    exact Ahead.irrefl (id b) hab

end Paging

/-! ## UUIDs -/

/-- The order of the ids is that of their texts. -/
instance : LinearOrder Uuid := LinearOrder.lift' Uuid.text fun _ _ h => Uuid.ext (congrArg String.toList h)

/-- The text before the id in its payload. -/
def payloadHead : String := "\x7b\"id\":\""

/-- The text after it. -/
def payloadTail : String := "\"\x7d"

/-- The texts of the payloads that hold one UUID. -/
def uuidText : CursorText Uuid where
  dumps payload :=
    match payload with
    | [("id", .str s)] => payloadHead ++ s ++ payloadTail
    | _ => "null"
  loads text :=
    if startsWith text payloadHead && endsWith text payloadTail then
      some (.obj [("id", .str (String.ofList ((text.toList.drop 7).dropLast.dropLast)))])
    else none
  str id := id.text
  uuid text := if h : text.length = 36 then some ⟨text, h⟩ else none
  loads_empty := rfl
  loads_dumps id := by
    have hlist : (payloadHead ++ id.text ++ payloadTail).toList =
        payloadHead.toList ++ (id.text.toList ++ payloadTail.toList) := by
      rw [String.toList_append, String.toList_append, List.append_assoc]
    have hstart : startsWith (payloadHead ++ id.text ++ payloadTail) payloadHead = true := by
      unfold startsWith
      rw [List.isPrefixOf_iff_prefix, hlist]
      exact List.prefix_append _ _
    have hend : endsWith (payloadHead ++ id.text ++ payloadTail) payloadTail = true := by
      unfold endsWith
      rw [List.isSuffixOf_iff_suffix, hlist, ← List.append_assoc]
      exact List.suffix_append _ _
    have hmiddle : ((payloadHead ++ id.text ++ payloadTail).toList.drop 7).dropLast.dropLast = id.text.toList := by
      rw [hlist, List.drop_left' (by rfl)]
      simp [payloadTail]
    show (if startsWith (payloadHead ++ id.text ++ payloadTail) payloadHead &&
      endsWith (payloadHead ++ id.text ++ payloadTail) payloadTail then some (Json.obj [("id", .str (String.ofList
        ((payloadHead ++ id.text ++ payloadTail).toList.drop 7).dropLast.dropLast))]) else none) = _
    rw [hstart, hend, hmiddle, String.ofList_toList]
    rfl
  uuid_str id := dif_pos id.length_eq

theorem keyset_exact_three : ∃ pages,
    follow (List.replicate 4 (paginateCursor uuidText (fun id : Uuid => id)
      (plain [sampleUuid 'b', sampleUuid 'c', sampleUuid 'a']) (some 2) true)) none = .ok pages ∧ Ended pages ∧
      (visited pages).Perm [sampleUuid 'b', sampleUuid 'c', sampleUuid 'a'] ∧
      (visited pages).Pairwise fun a b => Ahead true a b :=
  (keyset_exact uuidText (fun id : Uuid => id) (some 2) true).1 _ (by decide)

end RevenueOS.Shared
