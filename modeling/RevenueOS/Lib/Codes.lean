import Mathlib.Data.List.Basic

/-!
# RevenueOS.Lib.Codes — texts that end where they end

A code is free of prefixes if what follows the text of a value can be told from the text: values that are written one
after the other can be read back.  Pairs keep the property (`PrefixFree.pair`), and so do lists up to a stop
(`PrefixFree.terminated`) and lists with a separator (`PrefixFree.separated`), if no item begins with the stop.

Numbers are not free of prefixes, but their texts end at a delimiter.  So do those of lists with a separator
(`EndsAt.separated`).
-/

namespace RevenueOS.Lib

variable {α β γ : Type}

/-- No text of a value begins the text of another, whatever follows. -/
def PrefixFree (code : α → List β) : Prop :=
  ∀ ⦃a b : α⦄ ⦃r s : List β⦄, code a ++ r = code b ++ s → a = b ∧ r = s

/-- No text of a value begins with `stop`. -/
def Avoids (code : α → List β) (stop : β) : Prop := ∀ a r s, code a ++ r ≠ stop :: s

/-- Items up to a stop. -/
def terminated (code : α → List β) (stop : β) : List α → List β
  | [] => [stop]
  | a :: as => code a ++ terminated code stop as

/-- Items with a separator between them, up to a stop. -/
def separated (code : α → List β) (separator stop : β) : List α → List β
  | [] => [stop]
  | a :: as => code a ++ terminated (fun b => separator :: code b) stop as

namespace PrefixFree

theorem injective {code : α → List β} (h : PrefixFree code) : Function.Injective code := by
  intro a b hab
  exact (h (r := []) (s := []) (by rw [hab])).1

/-- A code that can be read is free of prefixes. -/
theorem of_read {code : α → List β} (read : List β → Option (α × List β))
    (h : ∀ a r, read (code a ++ r) = some (a, r)) : PrefixFree code := by
  intro a b r s heq
  have hread := h a r
  rw [heq, h b s] at hread
  obtain ⟨hab, hrs⟩ := Prod.mk.inj (Option.some.inj hread)
  exact ⟨hab.symm, hrs.symm⟩

/-- A text before every text. -/
theorem cons {code : α → List β} (h : PrefixFree code) (x : β) : PrefixFree fun a => x :: code a := by
  intro a b r s heq
  exact h (List.cons.inj heq).2

theorem comp {code : α → List β} (h : PrefixFree code) {f : γ → α} (hf : Function.Injective f) :
    PrefixFree fun c => code (f c) := by
  intro a b r s heq
  obtain ⟨hab, hrs⟩ := h heq
  exact ⟨hf hab, hrs⟩

theorem pair {code : α → List β} {code' : γ → List β} (h : PrefixFree code) (h' : PrefixFree code') :
    PrefixFree fun p : α × γ => code p.1 ++ code' p.2 := by
  rintro ⟨a, c⟩ ⟨b, d⟩ r s heq
  simp only [List.append_assoc] at heq
  obtain ⟨rfl, hrest⟩ := h heq
  obtain ⟨rfl, hrs⟩ := h' hrest
  exact ⟨rfl, hrs⟩

/-- The two cases of an option, told apart. -/
theorem option {code : Option α → List β} (hnone : ∀ a r s, code none ++ r ≠ code (some a) ++ s)
    (hnil : ∀ r s, code none ++ r = code none ++ s → r = s) (hsome : PrefixFree fun a => code (some a)) :
    PrefixFree code := by
  rintro (_ | a) (_ | b) r s heq
  · exact ⟨rfl, hnil r s heq⟩
  · exact absurd heq (hnone b r s)
  · exact absurd heq.symm (hnone a s r)
  · obtain ⟨rfl, hrs⟩ := hsome heq
    exact ⟨rfl, hrs⟩

theorem terminated {code : α → List β} {stop : β} (h : PrefixFree code) (hstop : Avoids code stop) :
    PrefixFree (terminated code stop) := by
  intro as
  induction as with
  | nil =>
    rintro (_ | ⟨b, bs⟩) r s heq
    · exact ⟨rfl, (List.cons.inj heq).2⟩
    · refine absurd heq.symm ?_
      show code b ++ Lib.terminated code stop bs ++ s ≠ stop :: r
      rw [List.append_assoc]
      exact hstop b _ _
  | cons a as ih =>
    rintro (_ | ⟨b, bs⟩) r s heq
    · refine absurd heq ?_
      show code a ++ Lib.terminated code stop as ++ r ≠ stop :: s
      rw [List.append_assoc]
      exact hstop a _ _
    · have heq : code a ++ (Lib.terminated code stop as ++ r) = code b ++ (Lib.terminated code stop bs ++ s) := by
        rw [← List.append_assoc, ← List.append_assoc]
        exact heq
      obtain ⟨rfl, hrest⟩ := h heq
      obtain ⟨rfl, hrs⟩ := ih hrest
      exact ⟨rfl, hrs⟩

theorem separated {code : α → List β} {separator stop : β} (h : PrefixFree code) (hstop : Avoids code stop)
    (hne : separator ≠ stop) : PrefixFree (separated code separator stop) := by
  have hrest : PrefixFree (Lib.terminated (fun b => separator :: code b) stop) :=
    (h.cons separator).terminated fun a r s heq => hne (List.cons.inj heq).1
  rintro (_ | ⟨a, as⟩) (_ | ⟨b, bs⟩) r s heq
  · exact ⟨rfl, (List.cons.inj heq).2⟩
  · refine absurd heq.symm ?_
    show code b ++ Lib.terminated (fun b => separator :: code b) stop bs ++ s ≠ stop :: r
    rw [List.append_assoc]
    exact hstop b _ _
  · refine absurd heq ?_
    show code a ++ Lib.terminated (fun b => separator :: code b) stop as ++ r ≠ stop :: s
    rw [List.append_assoc]
    exact hstop a _ _
  · obtain ⟨hpair, hrs⟩ := @PrefixFree.pair _ _ _ _ _ h hrest (a, as) (b, bs) r s heq
    obtain ⟨rfl, rfl⟩ := Prod.mk.inj hpair
    exact ⟨rfl, hrs⟩

end PrefixFree

/-! ## Delimiters -/

/-- A text that begins with a delimiter. -/
def Delimited (delim : β → Prop) (r : List β) : Prop := ∃ d s, r = d :: s ∧ delim d

/-- Before a delimiter, the text of `a` is that of no other value with `P`. -/
def EndsAt (code : α → List β) (delim : β → Prop) (P : α → Prop) (a : α) : Prop :=
  ∀ ⦃b : α⦄ ⦃r s : List β⦄, P b → Delimited delim r → Delimited delim s → code a ++ r = code b ++ s → a = b ∧ r = s

variable {code : α → List β} {delim : β → Prop} {P : α → Prop} {separator stop : β}

/-- Texts without delimiters end where one stands. -/
theorem eq_of_delimited : ∀ {l l' r s : List β}, (∀ c ∈ l, ¬delim c) → (∀ c ∈ l', ¬delim c) → Delimited delim r →
    Delimited delim s → l ++ r = l' ++ s → l = l' ∧ r = s
  | [], [], _, _, _, _, _, _, heq => ⟨rfl, heq⟩
  | [], c :: l', r, s, _, hl', hr, _, heq => by
    obtain ⟨d, t, rfl, hd⟩ := hr
    obtain ⟨rfl, -⟩ := List.cons.inj heq
    exact absurd hd (hl' d List.mem_cons_self)
  | c :: l, [], r, s, hl, _, _, hs, heq => by
    obtain ⟨d, t, rfl, hd⟩ := hs
    obtain ⟨rfl, -⟩ := List.cons.inj heq
    exact absurd hd (hl c List.mem_cons_self)
  | c :: l, c' :: l', r, s, hl, hl', hr, hs, heq => by
    obtain ⟨rfl, hrest⟩ := List.cons.inj heq
    obtain ⟨rfl, hrs⟩ := eq_of_delimited (fun x hx => hl x (List.mem_cons_of_mem c hx))
      (fun x hx => hl' x (List.mem_cons_of_mem c hx)) hr hs hrest
    exact ⟨rfl, hrs⟩

theorem delimited_terminated (hsep : delim separator) (hstop : delim stop) (as : List α) (r : List β) :
    Delimited delim (terminated (fun b => separator :: code b) stop as ++ r) := by
  cases as with
  | nil => exact ⟨stop, r, rfl, hstop⟩
  | cons a as => exact ⟨separator, _, rfl, hsep⟩

/-- The first of the items that are left ends where the next one begins. -/
theorem EndsAt.cons (hsep : delim separator) (hstop : delim stop) {a b : α} {as bs : List α} {r s : List β}
    (ha : EndsAt code delim P a) (hb : P b)
    (heq : code a ++ Lib.terminated (fun b => separator :: code b) stop as ++ r =
      code b ++ Lib.terminated (fun b => separator :: code b) stop bs ++ s) :
    a = b ∧ Lib.terminated (fun b => separator :: code b) stop as ++ r =
      Lib.terminated (fun b => separator :: code b) stop bs ++ s := by
  rw [List.append_assoc, List.append_assoc] at heq
  exact ha hb (delimited_terminated hsep hstop as r) (delimited_terminated hsep hstop bs s) heq

theorem EndsAt.terminated (hsep : delim separator) (hstop : delim stop) (hne : separator ≠ stop) :
    ∀ {as bs : List α} {r s : List β}, (∀ a ∈ as, EndsAt code delim P a) → (∀ b ∈ bs, P b) →
      Lib.terminated (fun b => separator :: code b) stop as ++ r =
        Lib.terminated (fun b => separator :: code b) stop bs ++ s → as = bs ∧ r = s
  | [], [], _, _, _, _, heq => ⟨rfl, (List.cons.inj heq).2⟩
  | [], _ :: _, _, _, _, _, heq => absurd (List.cons.inj heq).1.symm hne
  | _ :: _, [], _, _, _, _, heq => absurd (List.cons.inj heq).1 hne
  | a :: as, b :: bs, r, s, ha, hb, heq => by
    obtain ⟨rfl, hrest⟩ := EndsAt.cons hsep hstop (ha a List.mem_cons_self) (hb b List.mem_cons_self)
      (List.cons.inj heq).2
    obtain ⟨rfl, hrs⟩ := EndsAt.terminated hsep hstop hne (fun x hx => ha x (List.mem_cons_of_mem a hx))
      (fun x hx => hb x (List.mem_cons_of_mem a hx)) hrest
    exact ⟨rfl, hrs⟩

/-- **Lists end where they end** if their items end at delimiters. -/
theorem EndsAt.separated (hsep : delim separator) (hstop : delim stop) (hne : separator ≠ stop) (hcode : Avoids code stop)
    {as bs : List α} {r s : List β} (ha : ∀ a ∈ as, EndsAt code delim P a) (hb : ∀ b ∈ bs, P b)
    (heq : separated code separator stop as ++ r = separated code separator stop bs ++ s) : as = bs ∧ r = s := by
  cases as with
  | nil =>
    cases bs with
    | nil => exact ⟨rfl, (List.cons.inj heq).2⟩
    | cons b bs =>
      refine absurd heq.symm ?_
      show code b ++ Lib.terminated (fun b => separator :: code b) stop bs ++ s ≠ stop :: r
      rw [List.append_assoc]
      exact hcode b _ _
  | cons a as =>
    cases bs with
    | nil =>
      refine absurd heq ?_
      show code a ++ Lib.terminated (fun b => separator :: code b) stop as ++ r ≠ stop :: s
      rw [List.append_assoc]
      exact hcode a _ _
    | cons b bs =>
      obtain ⟨rfl, hrest⟩ := EndsAt.cons hsep hstop (ha a List.mem_cons_self) (hb b List.mem_cons_self) heq
      obtain ⟨rfl, hrs⟩ := EndsAt.terminated hsep hstop hne (fun x hx => ha x (List.mem_cons_of_mem a hx))
        (fun x hx => hb x (List.mem_cons_of_mem a hx)) hrest
      exact ⟨rfl, hrs⟩

end RevenueOS.Lib
