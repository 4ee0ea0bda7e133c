import Mathlib
import QuadStore.Proofs.Containers
import QuadStore.Proofs.Text.Words
/-!
# The entries of a text index

Changes of one kind, in whatever order, add the entries they name or take them out. Whatever the
changes were, each word of an entry leads to it, so that a search finds what a scan of the entries
would find.
-/

namespace QuadStore

namespace TextIndex

variable {x : TextIndex} {a b : TextEntry} {changes : List TextChange}

theorem mem_insert : b ∈ (x.insert a).entries ↔ b ∈ x.entries ∨ b = a := by
  unfold insert
  split
  · rename_i hmem
    rw [Std.ExtTreeSet.contains_iff_mem] at hmem
    exact ⟨.inl, fun h => h.elim id fun heq => heq ▸ hmem⟩
  · rw [Std.ExtTreeSet.mem_insert, Std.compare_eq_iff_eq, or_comm, eq_comm]

theorem mem_erase : b ∈ (x.erase a).entries ↔ b ∈ x.entries ∧ b ≠ a := by
  unfold erase
  split
  · rw [Std.ExtTreeSet.mem_erase, Ne, Std.compare_eq_iff_eq, and_comm, eq_comm]
  · rename_i hnot
    rw [Std.ExtTreeSet.contains_iff_mem] at hnot
    exact ⟨fun h => ⟨h, fun heq => hnot (heq ▸ h)⟩, And.left⟩

theorem mem_applyAll_insert (h : ∀ c ∈ changes, ∃ a, c = .insert a) :
    b ∈ (x.applyAll changes).entries ↔ b ∈ x.entries ∨ .insert b ∈ changes := by
  induction changes generalizing x with
  | nil => simp [applyAll]
  | cons c rest ih =>
    obtain ⟨a, rfl⟩ := h c (List.mem_cons_self ..)
    have ih := ih (x := x.insert a) fun c hc => h c (List.mem_cons_of_mem _ hc)
    rw [List.mem_cons, TextChange.insert.injEq, ← or_assoc, ← mem_insert]
    exact ih

theorem mem_applyAll_erase (h : ∀ c ∈ changes, ∃ a, c = .erase a) :
    b ∈ (x.applyAll changes).entries ↔ b ∈ x.entries ∧ .erase b ∉ changes := by
  induction changes generalizing x with
  | nil => simp [applyAll]
  | cons c rest ih =>
    obtain ⟨a, rfl⟩ := h c (List.mem_cons_self ..)
    have ih := ih (x := x.erase a) fun c hc => h c (List.mem_cons_of_mem _ hc)
    rw [List.mem_cons, TextChange.erase.injEq, not_or, ← and_assoc, ← ne_eq, ← mem_erase]
    exact ih

/-! ## What was inserted and not erased since -/

def Live (changes : List TextChange) (e : TextEntry) : Prop :=
  ∃ before after, changes = before ++ .insert e :: after ∧ .erase e ∉ after

theorem live_append_singleton {c : TextChange} :
    Live (changes ++ [c]) a ↔ c = .insert a ∨ (Live changes a ∧ c ≠ .erase a) := by
  constructor
  · rintro ⟨before, after, heq, hkept⟩
    rcases List.eq_nil_or_concat after with rfl | ⟨after, d, rfl⟩
    · exact .inl (List.singleton_inj.1 (List.append_inj' heq rfl).2)
    · rw [List.concat_eq_append] at heq hkept
      rw [← List.cons_append, ← List.append_assoc] at heq
      obtain ⟨rfl, hd⟩ := List.append_inj' heq rfl
      obtain rfl := List.singleton_inj.1 hd
      rw [List.mem_append, not_or, List.mem_singleton] at hkept
      exact .inr ⟨⟨before, after, rfl, hkept.1⟩, fun hc => hkept.2 hc.symm⟩
  · rintro (rfl | ⟨⟨before, after, rfl, hkept⟩, hne⟩)
    · exact ⟨changes, [], rfl, List.not_mem_nil⟩
    · refine ⟨before, after ++ [c], by simp, ?_⟩
      rw [List.mem_append, not_or, List.mem_singleton]
      exact ⟨hkept, fun hc => hne hc.symm⟩

theorem applyAll_append_singleton {c : TextChange} :
    x.applyAll (changes ++ [c]) = (x.applyAll changes).apply c :=
  List.foldl_concat ..

/-- The entries are those that were inserted and not erased since. -/
theorem mem_applyAll : a ∈ (({} : TextIndex).applyAll changes).entries ↔ Live changes a := by
  induction changes using List.reverseRecOn with
  | nil => simp [applyAll, Live]
  | append_singleton changes c ih =>
    rw [applyAll_append_singleton, live_append_singleton]
    cases c with
    | insert b => simp [apply, mem_insert, ih, or_comm, eq_comm]
    | erase b => simp [apply, mem_erase, ih, eq_comm]

/-! ## What words lead to -/

section Occurrences

variable {o : Std.ExtTreeMap String TextEntrySet} {w word : String} {ws : List String}

/-- No word is kept that leads nowhere. -/
def Pruned (o : Std.ExtTreeMap String TextEntrySet) : Prop :=
  ∀ (word : String) (es : TextEntrySet), o[word]? = some es → es.isEmpty = false

theorem mem_insertWord : b ∈ (insertWord a o w)[word]?.getD ∅ ↔
    b ∈ o[word]?.getD ∅ ∨ (word = w ∧ b = a) := by
  rw [insertWord, Std.ExtTreeMap.getElem?_alter]
  by_cases heq : w = word
  · subst heq
    simp [Std.ExtTreeSet.mem_insert, or_comm, eq_comm (a := a)]
  · simp [heq, Ne.symm heq]

theorem mem_eraseWord : b ∈ (eraseWord a o w)[word]?.getD ∅ ↔
    b ∈ o[word]?.getD ∅ ∧ ¬(word = w ∧ b = a) := by
  rw [eraseWord, Std.ExtTreeMap.getElem?_alter]
  by_cases heq : w = word
  · subst heq
    cases o[w]? with
    | none => simp
    | some es =>
      have herase : b ∈ es.erase a ↔ b ∈ es ∧ b ≠ a := by
        rw [Std.ExtTreeSet.mem_erase, ne_eq, Std.compare_eq_iff_eq, and_comm, eq_comm]
      have hfound : b ∈ (if (es.erase a).isEmpty then none else some (es.erase a)).getD ∅ ↔
          b ∈ es.erase a := by
        split
        · rename_i hempty
          rw [Std.ExtTreeSet.isEmpty_iff] at hempty
          rw [hempty]
          rfl
        · rfl
      rw [if_pos Std.ReflOrd.compare_self, Option.bind_some, hfound, herase, Option.getD_some]
      simp
  · simp [heq, Ne.symm heq]

theorem Pruned.insertWord (h : Pruned o) : Pruned (insertWord a o w) := by
  intro word es hes
  rw [TextIndex.insertWord, Std.ExtTreeMap.getElem?_alter] at hes
  split at hes
  · cases hes
    simp
  · exact h word es hes

theorem Pruned.eraseWord (h : Pruned o) : Pruned (eraseWord a o w) := by
  intro word es hes
  rw [TextIndex.eraseWord, Std.ExtTreeMap.getElem?_alter] at hes
  split at hes
  · obtain ⟨es', -, hes'⟩ := Option.bind_eq_some_iff.1 hes
    split at hes'
    · cases hes'
    · rename_i hnonempty
      cases hes'
      simpa using hnonempty
  · exact h word es hes

theorem mem_foldl_insertWord : b ∈ (ws.foldl (insertWord a) o)[word]?.getD ∅ ↔
    b ∈ o[word]?.getD ∅ ∨ (word ∈ ws ∧ b = a) := by
  induction ws generalizing o with
  | nil => simp
  | cons w ws ih =>
    rw [List.foldl_cons, ih, mem_insertWord, List.mem_cons, or_assoc, or_and_right]

theorem mem_foldl_eraseWord : b ∈ (ws.foldl (eraseWord a) o)[word]?.getD ∅ ↔
    b ∈ o[word]?.getD ∅ ∧ ¬(word ∈ ws ∧ b = a) := by
  induction ws generalizing o with
  | nil => simp
  | cons w ws ih =>
    rw [List.foldl_cons, ih, mem_eraseWord, List.mem_cons, or_and_right, not_or, and_assoc]

theorem Pruned.foldl {step : Std.ExtTreeMap String TextEntrySet → String →
    Std.ExtTreeMap String TextEntrySet} (hstep : ∀ o w, Pruned o → Pruned (step o w))
    (h : Pruned o) : Pruned (ws.foldl step o) := by
  induction ws generalizing o with
  | nil => exact h
  | cons w ws ih => exact ih (hstep o w h)

end Occurrences

/-- Every word of an entry leads to it, and nothing else does. -/
structure Consistent (x : TextIndex) : Prop where
  lookup : ∀ word b, b ∈ x.lookup word ↔ b ∈ x.entries ∧ word ∈ words b.text
  pruned : Pruned x.occurrences

theorem lookup_insert_of_not_mem {word : String} (h : a ∉ x.entries) :
    b ∈ (x.insert a).lookup word ↔ b ∈ x.lookup word ∨ (word ∈ words a.text ∧ b = a) := by
  rw [insert, if_neg (by simpa using h)]
  exact mem_foldl_insertWord

theorem lookup_erase_of_mem {word : String} (h : a ∈ x.entries) :
    b ∈ (x.erase a).lookup word ↔ b ∈ x.lookup word ∧ ¬(word ∈ words a.text ∧ b = a) := by
  rw [erase, if_pos (by simpa using h)]
  exact mem_foldl_eraseWord

/-- Repeating an insertion changes nothing. -/
theorem insert_of_mem (h : a ∈ x.entries) : x.insert a = x :=
  if_pos (by simpa using h)

theorem erase_of_not_mem (h : a ∉ x.entries) : x.erase a = x :=
  if_neg (by simpa using h)

namespace Consistent

theorem empty : Consistent {} where
  lookup word b := by simp [TextIndex.lookup]
  pruned word es hes := by simp at hes

theorem insert (h : x.Consistent) : (x.insert a).Consistent := by
  by_cases hmem : a ∈ x.entries
  · rwa [insert_of_mem hmem]
  · constructor
    · intro word b
      rw [lookup_insert_of_not_mem hmem, mem_insert, h.lookup, or_and_right]
      exact or_congr_right ⟨fun ⟨hw, heq⟩ => ⟨heq, heq ▸ hw⟩, fun ⟨heq, hw⟩ => ⟨heq ▸ hw, heq⟩⟩
    · rw [TextIndex.insert, if_neg (by simpa using hmem)]
      exact Pruned.foldl (fun _ _ => Pruned.insertWord) h.pruned

theorem erase (h : x.Consistent) : (x.erase a).Consistent := by
  by_cases hmem : a ∈ x.entries
  · constructor
    · intro word b
      rw [lookup_erase_of_mem hmem, mem_erase, h.lookup, and_right_comm]
      refine and_congr_left fun hw => and_congr_right fun _ => not_congr ?_
      exact ⟨And.right, fun heq => ⟨heq ▸ hw, heq⟩⟩
    · rw [TextIndex.erase, if_pos (by simpa using hmem)]
      exact Pruned.foldl (fun _ _ => Pruned.eraseWord) h.pruned
  · rwa [erase_of_not_mem hmem]

theorem applyAll (h : x.Consistent) : (x.applyAll changes).Consistent := by
  induction changes generalizing x with
  | nil => exact h
  | cons c rest ih =>
    refine ih ?_
    cases c with
    | insert a => exact h.insert
    | erase a => exact h.erase

end Consistent

/-! ## A search is a scan -/

theorem mem_foldl_inter {found : TextEntrySet} {ws : List String} :
    b ∈ ws.foldl (fun found w => found ∩ x.lookup w) found ↔
      b ∈ found ∧ ∀ w ∈ ws, b ∈ x.lookup w := by
  induction ws generalizing found with
  | nil => simp
  | cons w ws ih =>
    rw [List.foldl_cons, ih, Std.ExtTreeSet.mem_inter_iff, List.forall_mem_cons, and_assoc]

theorem pairwise_search (query : String) :
    (x.search query).Pairwise fun a b => compare a b = .lt := by
  unfold search
  split
  · exact .nil
  · exact Std.ExtTreeSet.ordered_toList

/-- A search finds the entries that a scan for every word of the query would find. -/
theorem Consistent.mem_search (h : x.Consistent) {query : String} :
    b ∈ x.search query ↔ b ∈ x.entries ∧ (∃ w, IsWord query w) ∧
      ∀ w, IsWord query w → IsWord b.text w := by
  simp only [← mem_words]
  unfold search
  cases hwords : words query with
  | nil => simp
  | cons word rest =>
    have hscan : b ∈ rest.foldl (fun found w => found ∩ x.lookup w) (x.lookup word) ↔
        ∀ w ∈ word :: rest, b ∈ x.lookup w := by
      rw [mem_foldl_inter, List.forall_mem_cons]
    rw [Std.ExtTreeSet.mem_toList, hscan]
    simp only [h.lookup]
    constructor
    · exact fun hall => ⟨(hall word (List.mem_cons_self ..)).1, ⟨word, List.mem_cons_self ..⟩,
        fun w hw => (hall w hw).2⟩
    · exact fun ⟨hb, _, hall⟩ w hw => ⟨hb, hall w hw⟩

theorem size_eq_ncard : x.size = {e | e ∈ x.entries}.ncard := by
  have hset : {e | e ∈ x.entries} = (x.entries.toList.toFinset : Set TextEntry) := by
    ext e
    simp
  rw [hset, Set.ncard_coe_finset, List.toFinset_card_of_nodup set_nodup_toList,
    Std.ExtTreeSet.length_toList, size]

theorem isEmpty_iff : x.isEmpty ↔ ∀ e, e ∉ x.entries := by
  rw [isEmpty, Std.ExtTreeSet.isEmpty_iff, Std.ExtTreeSet.eq_empty_iff_forall_not_mem]

/-- Whatever the changes were, the index is a scan over what was inserted and not erased since. -/
theorem applyAll_scans (changes : List TextChange) :
    let x := ({} : TextIndex).applyAll changes
    x.size = {e | Live changes e}.ncard ∧
    (x.isEmpty ↔ ∀ e, ¬Live changes e) ∧
    (∀ (word : String) (es : TextEntrySet), x.occurrences[word]? = some es → es.isEmpty = false) ∧
    (∀ query,
      (x.search query).Pairwise (fun a b => compare a b = .lt) ∧
      ∀ e, e ∈ x.search query ↔ Live changes e ∧ (∃ w, IsWord query w) ∧
        ∀ w, IsWord query w → IsWord e.text w) ∧
    (∀ e, Live changes e → x.insert e = x) ∧
    (∀ e, ¬Live changes e → x.erase e = x) ∧
    (∀ e, (x.insert e).insert e = x.insert e ∧ (x.erase e).erase e = x.erase e) := by
  intro x
  have hx : x.Consistent := Consistent.empty.applyAll
  have hlive : ∀ e, e ∈ x.entries ↔ Live changes e := fun e => mem_applyAll
  simp only [← hlive]
  exact ⟨size_eq_ncard, isEmpty_iff, hx.pruned,
    fun query => ⟨pairwise_search query, fun e => hx.mem_search⟩,
    fun e => insert_of_mem, fun e => erase_of_not_mem,
    fun e => ⟨insert_of_mem (mem_insert.2 (.inr rfl)),
      erase_of_not_mem fun h => (mem_erase.1 h).2 rfl⟩⟩

end TextIndex

end QuadStore
