import Mathlib
import QuadStore.Json.Reader
import QuadStore.Json.Writer
/-!
# Reading what was written

The reader takes a written value off the front of a text and leaves what follows it, for values
without numbers and without strings that stand for no text.
-/

namespace QuadStore.Json

/-! ## Strings -/

/-- The piece as which a character is read back. -/
def pieceOf (c : Char) : Piece :=
  if c.toNat < 32 ∧ c ≠ '\x08' ∧ c ≠ '\x0c' ∧ c ≠ '\n' ∧ c ≠ '\r' ∧ c ≠ '\t' then .unit c.toNat
  else .char c

theorem hexNumber?_digits {n : Nat} (h : n < 32) :
    Text.hexNumber? ['0', '0', Text.hexDigit (n / 16), Text.hexDigit n] = some n := by
  have hall : ∀ n < 32,
      Text.hexNumber? ['0', '0', Text.hexDigit (n / 16), Text.hexDigit n] = some n := by decide
  exact hall n h

theorem readPieces_plain {c : Char} {s : List Char} (hquote : c ≠ '"') (hslash : c ≠ '\\')
    (hlow : ¬c.toNat < 32) :
    readPieces (c :: s) = (readPieces s).map fun r => (.char c :: r.1, r.2) := by
  rw [readPieces.eq_def]
  split
  · simp_all
  · simp_all
  · simp_all
  · simp_all
  · rename_i heq
    cases heq
    rw [if_neg hlow]
    cases readPieces s <;> rfl

theorem readPieces_escape {c e : Char} {s : List Char} (h : escape? e = some c) :
    readPieces ('\\' :: e :: s) = (readPieces s).map fun r => (.char c :: r.1, r.2) := by
  have hne : e ≠ 'u' := by
    rintro rfl
    cases h
  rw [readPieces.eq_def]
  split
  · simp_all
  · simp_all
  · simp_all
  · rename_i heq
    cases heq
    rw [h]
    cases readPieces s <;> rfl
  · rename_i hno heq
    cases heq
    exact absurd rfl (hno e s rfl)

theorem readPieces_unit {n : Nat} {s : List Char} (h : n < 32) :
    readPieces ('\\' :: 'u' :: '0' :: '0' :: Text.hexDigit (n / 16) :: Text.hexDigit n :: s) =
      (readPieces s).map fun r => (.unit n :: r.1, r.2) := by
  rw [readPieces, hexNumber?_digits h]
  cases readPieces s <;> rfl

theorem readPieces_escapedChar (c : Char) (s : List Char) :
    readPieces (escapedChar c ++ s) = (readPieces s).map fun r => (pieceOf c :: r.1, r.2) := by
  by_cases hquote : c = '"'
  · subst hquote
    exact readPieces_escape rfl
  by_cases hslash : c = '\\'
  · subst hslash
    exact readPieces_escape rfl
  by_cases hback : c = '\x08'
  · subst hback
    exact readPieces_escape rfl
  by_cases hfeed : c = '\x0c'
  · subst hfeed
    exact readPieces_escape rfl
  by_cases hline : c = '\n'
  · subst hline
    exact readPieces_escape rfl
  by_cases hreturn : c = '\r'
  · subst hreturn
    exact readPieces_escape rfl
  by_cases htab : c = '\t'
  · subst htab
    exact readPieces_escape rfl
  by_cases hlow : c.toNat < 32
  · simp only [escapedChar, pieceOf, hquote, hslash, hback, hfeed, hline, hreturn, htab, hlow,
      if_true, if_false, ne_eq, not_false_eq_true, and_self]
    exact readPieces_unit hlow
  · simp only [escapedChar, pieceOf, hquote, hslash, hback, hfeed, hline, hreturn, htab, hlow,
      if_false, false_and]
    exact readPieces_plain hquote hslash hlow

theorem readPieces_escaped (cs rest : List Char) :
    readPieces (cs.flatMap escapedChar ++ '"' :: rest) = some (cs.map pieceOf, rest) := by
  induction cs with
  | nil => rfl
  | cons c cs ih =>
    rw [List.flatMap_cons, List.append_assoc, readPieces_escapedChar, ih]
    rfl

theorem joinPieces_pieceOf (cs : List Char) : joinPieces (cs.map pieceOf) = some cs := by
  induction cs with
  | nil => rfl
  | cons c cs ih =>
    rw [List.map_cons]
    by_cases hunit : c.toNat < 32 ∧ c ≠ '\x08' ∧ c ≠ '\x0c' ∧ c ≠ '\n' ∧ c ≠ '\r' ∧ c ≠ '\t'
    · have hhigh : isHighSurrogate c.toNat = false := by
        simp only [isHighSurrogate, Bool.and_eq_false_iff, decide_eq_false_iff_not]
        omega
      have hlow : isLowSurrogate c.toNat = false := by
        simp only [isLowSurrogate, Bool.and_eq_false_iff, decide_eq_false_iff_not]
        omega
      rw [show pieceOf c = .unit c.toNat from if_pos hunit]
      cases hrest : cs.map pieceOf with
      | nil =>
        rw [hrest] at ih
        simp [joinPieces, hhigh, hlow, Char.ofNat_toNat] at ih ⊢
        exact ih
      | cons piece pieces =>
        rw [hrest] at ih
        cases piece <;> simp [joinPieces, hhigh, hlow, Char.ofNat_toNat] at ih ⊢ <;> exact ih
    · rw [show pieceOf c = .char c from if_neg hunit, joinPieces, ih]
      rfl

theorem readString_writeString (s : String) (rest : List Char) :
    readString (s.toList.flatMap escapedChar ++ '"' :: rest) = some (some s, rest) := by
  simp [readString, readPieces_escaped, joinPieces_pieceOf, String.ofList_toList]

/-! ## Values -/

/-- A value without numbers and without strings that stand for no text. -/
inductive Plain : Json → Prop where
  | null : Plain .null
  | bool (b : Bool) : Plain (.bool b)
  | string (s : String) : Plain (.string s)
  | array (items : List Json) (h : ∀ j ∈ items, Plain j) : Plain (.array items)
  | object (members : List (String × Json)) (h : ∀ m ∈ members, Plain m.2) :
    Plain (.object members)

theorem skipSpace_cons {c : Char} {s : List Char} (h : isSpace c = false) :
    skipSpace (c :: s) = c :: s := by
  simp [skipSpace, h]

/-- A written value starts with a character that is neither blank nor a closing bracket. -/
theorem write_head {j : Json} (h : Plain j) :
    ∃ c s, write j = c :: s ∧ isSpace c = false ∧ c ≠ ']' := by
  cases h with
  | null => exact ⟨_, _, rfl, rfl, by decide⟩
  | bool b => cases b <;> exact ⟨_, _, rfl, rfl, by decide⟩
  | string s => exact ⟨_, _, rfl, rfl, by decide⟩
  | array items h => cases items <;> exact ⟨_, _, rfl, rfl, by decide⟩
  | object members h => cases members <;> exact ⟨_, _, rfl, rfl, by decide⟩

theorem ofMembers_some (members : List (String × Json)) :
    ofMembers (members.map fun m => (some m.1, m.2)) = .object members := by
  have hnames : (members.map fun m => (some m.1, m.2)).mapM
      (fun m : Option String × Json => m.1.map fun name => (name, m.2)) = some members := by
    induction members with
    | nil => rfl
    | cons m members ih => simp [ih]
  rw [ofMembers, hnames]

/-- What the three readers take off the front of a text, given fuel for it. -/
structure ReadsBack (fuel : Nat) : Prop where
  value : ∀ j rest, Plain j → (write j).length ≤ fuel →
    readValue fuel (write j ++ rest) = some (j, rest)
  items : ∀ item items rest, (∀ j ∈ item :: items, Plain j) →
    (write item ++ writeItems items).length ≤ fuel →
    readItems fuel (write item ++ writeItems items ++ rest) = some (item :: items, rest)
  members : ∀ (m : String × Json) members rest, (∀ x ∈ m :: members, Plain x.2) →
    (writeString m.1 ++ ':' :: (write m.2 ++ writeMembers members)).length ≤ fuel →
    readMembers fuel (writeString m.1 ++ ':' :: (write m.2 ++ writeMembers members) ++ rest) =
      some ((m :: members).map fun x => (some x.1, x.2), rest)

namespace ReadsBack

variable {fuel : Nat}

theorem value_succ (ih : ReadsBack fuel) {j : Json} {rest : List Char} (hj : Plain j)
    (hlength : (write j).length ≤ fuel + 1) :
    readValue (fuel + 1) (write j ++ rest) = some (j, rest) := by
  cases hj with
  | null => rfl
  | bool b => cases b <;> rfl
  | string s =>
    simp only [write, writeString, List.cons_append, List.append_assoc, List.nil_append]
    rw [readValue, skipSpace_cons (by decide)]
    simp only [readString_writeString, Option.bind_eq_bind, Option.bind_some]
    rfl
  | array items h =>
    cases items with
    | nil => rfl
    | cons item items =>
      obtain ⟨c, s, hwrite, hspace, hclose⟩ := write_head (h item (List.mem_cons_self ..))
      have hitems := ih.items item items rest h (by simp [write] at hlength ⊢; omega)
      simp only [write, List.cons_append]
      rw [readValue, skipSpace_cons (by decide)]
      simp only [hwrite, List.cons_append] at hitems ⊢
      rw [skipSpace_cons hspace]
      split
      · rename_i heq
        cases heq
        exact absurd rfl hclose
      · rw [hitems]
        rfl
  | object members h =>
    cases members with
    | nil => rfl
    | cons m members =>
      obtain ⟨name, value⟩ := m
      have hmembers := ih.members (name, value) members rest h (by simp [write] at hlength ⊢; omega)
      simp only [write, List.cons_append]
      rw [readValue, skipSpace_cons (by decide)]
      simp only [writeString, List.cons_append] at hmembers ⊢
      rw [skipSpace_cons (by decide)]
      simp only [List.append_assoc, List.cons_append, List.nil_append] at hmembers ⊢
      split
      · rename_i heq
        simp at heq
      · rw [hmembers]
        simp only [Option.bind_eq_bind, Option.bind_some, ofMembers_some]
        rfl

theorem items_succ (ih : ReadsBack fuel) {item : Json} {items : List Json} {rest : List Char}
    (h : ∀ j ∈ item :: items, Plain j)
    (hlength : (write item ++ writeItems items).length ≤ fuel + 1) :
    readItems (fuel + 1) (write item ++ writeItems items ++ rest) = some (item :: items, rest) := by
  have hpositive : 1 ≤ (writeItems items).length := by cases items <;> simp [writeItems]
  rw [List.length_append] at hlength
  rw [readItems, List.append_assoc, ih.value item _ (h item (List.mem_cons_self ..)) (by omega)]
  cases items with
  | nil =>
    simp only [writeItems, List.cons_append, List.nil_append, Option.bind_eq_bind, Option.bind_some]
    rw [skipSpace_cons (by decide)]
    rfl
  | cons next items =>
    have hitems := ih.items next items rest (fun j hj => h j (List.mem_cons_of_mem _ hj))
      (by simp [writeItems] at hlength ⊢; omega)
    simp only [writeItems, List.cons_append, Option.bind_eq_bind, Option.bind_some]
    rw [skipSpace_cons (by decide)]
    simp only [hitems, Option.bind_some]
    rfl

theorem members_succ (ih : ReadsBack fuel) {m : String × Json} {members : List (String × Json)}
    {rest : List Char} (h : ∀ x ∈ m :: members, Plain x.2)
    (hlength : (writeString m.1 ++ ':' :: (write m.2 ++ writeMembers members)).length ≤ fuel + 1) :
    readMembers (fuel + 1)
        (writeString m.1 ++ ':' :: (write m.2 ++ writeMembers members) ++ rest) =
      some ((m :: members).map fun x => (some x.1, x.2), rest) := by
  obtain ⟨name, value⟩ := m
  have hpositive : 1 ≤ (writeMembers members).length := by
    cases members with
    | nil => simp [writeMembers]
    | cons m members => simp [writeMembers]
  simp only [List.length_append, List.length_cons, writeString] at hlength
  simp only [writeString, List.cons_append, List.append_assoc, List.nil_append]
  rw [readMembers, skipSpace_cons (by decide)]
  simp only [readString_writeString, Option.bind_eq_bind, Option.bind_some]
  rw [skipSpace_cons (by decide)]
  simp only [ih.value value _ (h (name, value) (List.mem_cons_self ..)) (by omega),
    Option.bind_some]
  cases members with
  | nil =>
    simp only [writeMembers, List.cons_append, List.nil_append]
    rw [skipSpace_cons (by decide)]
    rfl
  | cons next members =>
    obtain ⟨nextName, nextValue⟩ := next
    have hmembers := ih.members (nextName, nextValue) members rest
      (fun x hx => h x (List.mem_cons_of_mem _ hx))
      (by simp [writeMembers, writeString] at hlength ⊢; omega)
    simp only [writeMembers, List.cons_append]
    rw [skipSpace_cons (by decide)]
    simp only [List.append_assoc, List.cons_append] at hmembers ⊢
    rw [hmembers]
    rfl

theorem all (fuel : Nat) : ReadsBack fuel := by
  induction fuel with
  | zero =>
    refine ⟨fun j rest hj hlength => ?_, fun item items rest h hlength => ?_,
      fun m members rest h hlength => ?_⟩
    · obtain ⟨c, s, hwrite, -⟩ := write_head hj
      simp [hwrite] at hlength
    · obtain ⟨c, s, hwrite, -⟩ := write_head (h item (List.mem_cons_self ..))
      simp [hwrite] at hlength
    · simp at hlength
  | succ fuel ih =>
    exact ⟨fun _ _ hj hlength => ih.value_succ hj hlength,
      fun _ _ _ h hlength => ih.items_succ h hlength,
      fun _ _ _ h hlength => ih.members_succ h hlength⟩

end ReadsBack

/-- A written value is read back, and what follows it is left. -/
theorem read?_write {j : Json} (hj : Plain j) (rest : List Char) :
    read? (write j ++ rest) = some (j, rest) :=
  (ReadsBack.all _).value j rest hj (by simp; omega)

theorem parse?_render {j : Json} (hj : Plain j) : parse? j.render = some j := by
  have hread := read?_write hj []
  rw [List.append_nil] at hread
  rw [parse?, render, String.toList_ofList, hread]
  rfl

end QuadStore.Json
