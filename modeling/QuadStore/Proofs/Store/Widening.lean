import Mathlib
import QuadStore.Proofs.Store.Deleting
/-!
# Opening positions of a pattern

A pattern that leaves more open finds what the pattern found before, in as many contexts. The one
exception is a literal that is stored as a resource under the predicate of the pattern: without the
predicate it is compared as a literal.
-/

namespace QuadStore

namespace Pattern

variable {p q : Pattern} {e : Encoder} {M : Dataset} {t : Triple} {x : Statement}
  {policy : Policy} {path : AccessPath}

/-- The pattern `q` leaves open what `p` leaves open, and binds nothing else than `p` does. -/
structure Widens (q p : Pattern) : Prop where
  subject : q.subject = p.subject ∨ q.subject = none
  predicate : q.predicate = p.predicate ∨ q.predicate = none
  object : q.object = p.object ∨ q.object = none
  contexts : q.contexts = p.contexts ∨ q.contexts = .any

/-- The patterns compare their objects as they are stored under the predicate of the first, or do
not need to. -/
def ComparesAlike (e : Encoder) (q p : Pattern) : Prop :=
  ∀ u ∈ p.predicate, ∀ o ∈ q.object, q.predicate = none → e.classify u o = o

@[simp] theorem contexts_normalize : (p.normalize e).contexts = p.contexts := by
  unfold normalize
  split <;> rfl

/-- What a pattern accepts once its object is compared the way it is stored. -/
theorem normalize_accepts_iff :
    (p.normalize e).accepts t ↔ (∀ r ∈ p.subject, r = t.subject) ∧
      (∀ u ∈ p.predicate, u = t.predicate) ∧
      ∀ o ∈ p.object, p.predicate.elim o (e.classify · o) = t.object := by
  obtain ⟨subject, predicate, object, contexts⟩ := p
  cases predicate <;> cases object <;> simp [normalize, accepts_iff]

/-- Where both patterns compare their objects alike, the wider one accepts what the other does. -/
theorem Widens.accepts (h : q.Widens p) (halike : q.ComparesAlike e p)
    (ht : (p.normalize e).accepts t) : (q.normalize e).accepts t := by
  obtain ⟨hsubject, hpredicate, hobject⟩ := normalize_accepts_iff.1 ht
  refine normalize_accepts_iff.2 ⟨fun r hr => ?_, fun u hu => ?_, fun o ho => ?_⟩
  · obtain heq | hnone := h.subject
    · exact hsubject r (heq ▸ hr)
    · rw [hnone] at hr
      cases hr
  · obtain heq | hnone := h.predicate
    · exact hpredicate u (heq ▸ hu)
    · rw [hnone] at hu
      cases hu
  · obtain heq | hnone := h.object
    · have hstored := hobject o (heq ▸ ho)
      obtain hsame | hopen := h.predicate
      · rwa [hsame]
      · cases hp : p.predicate with
        | none => rwa [hopen, ← hp]
        | some u =>
          rw [hp, Option.elim_some, halike u hp o ho hopen] at hstored
          rwa [hopen]
    · rw [hnone] at ho
      cases ho

/-- What a pattern selects a wider one selects too, in all the contexts that it was selected in. -/
theorem Widens.selects (h : q.Widens p) (halike : q.ComparesAlike e p)
    (hx : (p.normalize e).Selects M x) :
    ∃ y, (q.normalize e).Selects M y ∧ y.triple = x.triple ∧
      ∀ c : Context, c.isOf x.contexts → c.isOf y.contexts := by
  obtain ⟨A, hA, haccepts, hrestrict⟩ := hx
  have hcontexts : ∀ c, (p.normalize e).contexts.admits c → (q.normalize e).contexts.admits c := by
    simp only [contexts_normalize]
    obtain heq | hany := h.contexts
    · rw [heq]
      exact fun c hc => hc
    · rw [hany]
      exact fun c _ => rfl
  obtain ⟨c, hc⟩ := Context.exists_isOf x.contexts
  obtain ⟨hcA, hadmits⟩ := (ContextFilter.isOf_restrict hrestrict).1 hc
  obtain ⟨kept, hkept⟩ := ContextFilter.exists_restrict hcA (hcontexts c hadmits)
  refine ⟨⟨x.triple, kept⟩, ⟨A, hA, h.accepts halike haccepts, hkept⟩, rfl, fun d hd => ?_⟩
  obtain ⟨hdA, hadmitted⟩ := (ContextFilter.isOf_restrict hrestrict).1 hd
  exact (ContextFilter.isOf_restrict hkept).2 ⟨hdA, hcontexts d hadmitted⟩

/-- Where the patterns do not compare their objects alike, nothing is accepted by both. -/
theorem Widens.not_accepts (h : q.Widens p) (hunlike : ¬q.ComparesAlike e p)
    (ht : (p.normalize e).accepts t) : ¬(q.normalize e).accepts t := by
  intro ht'
  refine hunlike fun u hu o ho hopen => ?_
  have hobject : p.object = q.object := by
    obtain heq | hnone := h.object
    · exact heq.symm
    · rw [hnone] at ho
      cases ho
  have hstored := (normalize_accepts_iff.1 ht).2.2 o (hobject ▸ ho)
  have hraw := (normalize_accepts_iff.1 ht').2.2 o ho
  rw [hu, Option.elim_some] at hstored
  rw [hopen, Option.elim_none] at hraw
  exact hstored.trans hraw.symm

end Pattern

namespace Store

variable {s : Store} {p q : Pattern} {path path' : AccessPath}

/-- A pattern that leaves more open loses no answer and no context of one, unless its object is not
compared as it is stored any more: then it shares no answer with the pattern. -/
theorem Reachable.find_widens (h : s.Reachable) (hwider : q.Widens p)
    (hp : p.plan s.encoder.policy = .ok path) (hq : q.plan s.encoder.policy = .ok path') :
    ∃ found more, s.find p = .ok found ∧ s.find q = .ok more ∧
      (q.ComparesAlike s.encoder p → ∀ x ∈ found, ∃ y ∈ more, y.triple = x.triple ∧
        ∀ c : Context, c.isOf x.contexts → c.isOf y.contexts) ∧
      (¬q.ComparesAlike s.encoder p → ∀ x ∈ found, ∀ y ∈ more, y.triple ≠ x.triple) := by
  obtain ⟨M, hM⟩ := h.keeps
  obtain ⟨_, hp'⟩ := Pattern.plan_normalize_ok (e := s.encoder) hp
  obtain ⟨_, hq'⟩ := Pattern.plan_normalize_ok (e := s.encoder) hq
  obtain ⟨found, hfound, hanswers⟩ := hM.find_ok hp'
  obtain ⟨more, hmore, hanswers'⟩ := hM.find_ok hq'
  refine ⟨found, more, hfound, hmore, fun halike x hx => ?_, fun hunlike x hx y hy heq => ?_⟩
  · obtain ⟨y, hy, htriple, hcontexts⟩ := hwider.selects halike ((hanswers.mem x).1 hx)
    exact ⟨y, (hanswers'.mem y).2 hy, htriple, hcontexts⟩
  · obtain ⟨-, -, hx, -⟩ := (hanswers.mem x).1 hx
    obtain ⟨-, -, hy, -⟩ := (hanswers'.mem y).1 hy
    exact hwider.not_accepts hunlike hx (heq ▸ hy)

/-- The predicate is opened and the object, a literal that is no URI, stays bound. -/
theorem Reachable.find_widens_literal :
    let u : Uri := ⟨"a:p", by decide⟩
    let s : Store := { encoder := ⟨.dense, {}, some (Schema.declareObject {} u), {}⟩ }
    let x : Statement := ⟨⟨.uri ⟨"a:s", by decide⟩, u, .literal ⟨"v", .plain⟩⟩, {⟨"a:g", by decide⟩}⟩
    let p : Pattern :=
      ⟨some x.subject, some u, some x.object, .among {.named ⟨"a:g", by decide⟩}⟩
    let q : Pattern := ⟨some x.subject, none, some x.object, .any⟩
    ∃ report s', add x s = .ok report s' ∧ s'.Reachable ∧ q.Widens p ∧
      p.plan s'.encoder.policy = .ok .wholeTriple ∧ q.plan s'.encoder.policy = .ok .subjectObject ∧
      q.ComparesAlike s'.encoder p ∧
      ∃ found more, s'.find p = .ok found ∧ s'.find q = .ok more ∧
        ∀ x ∈ found, ∃ y ∈ more, y.triple = x.triple ∧
          ∀ c : Context, c.isOf x.contexts → c.isOf y.contexts := by
  intro u s x p q
  have hfresh : s.Fresh := .setSchema (.ofConfig (c := { encoding := .dense }) rfl) _
  obtain ⟨report, s', hadd, hencoder, -⟩ := hfresh.keeps.add_ok x
  have hreachable : s'.Reachable := .write (.fresh hfresh) (.add x) (Account.discard_ok hadd)
  have hwider : q.Widens p := ⟨.inl rfl, .inr rfl, .inl rfl, .inr rfl⟩
  have hp : p.plan s'.encoder.policy = .ok .wholeTriple := rfl
  have hq : q.plan s'.encoder.policy = .ok .subjectObject := rfl
  have halike : q.ComparesAlike s'.encoder p := by
    rw [hencoder]
    intro w hw o ho _
    cases hw
    cases ho
    decide
  obtain ⟨found, more, hfound, hmore, hkept, -⟩ := hreachable.find_widens hwider hp hq
  exact ⟨report, s', hadd, hreachable, hwider, hp, hq, halike, found, more, hfound, hmore,
    hkept halike⟩

/-- A statement given with a literal that is stored as a resource is found with its predicate, and
not found any more when the predicate is opened. -/
theorem opened_predicate_lost :
    let u : Uri := ⟨"a:p", by decide⟩
    let s : Store := { encoder := ⟨.dense, {}, some (Schema.declareObject {} u), {}⟩ }
    let x : Statement := ⟨⟨.uri ⟨"a:s", by decide⟩, u, .literal ⟨"a:o", .plain⟩⟩, ∅⟩
    let p := Pattern.ofQuery x.toQuery
    let q : Pattern := { subject := some x.subject, object := some x.object }
    ∃ report s', add x s = .ok report s' ∧ s'.Reachable ∧ q.Widens p ∧
      p.plan s'.encoder.policy = .ok .wholeTriple ∧ q.plan s'.encoder.policy = .ok .subjectObject ∧
      (∃ y, s'.find p = .ok [y]) ∧ s'.find q = .ok [] := by
  intro u s x p q
  have hfresh : s.Fresh := .setSchema (.ofConfig (c := { encoding := .dense }) rfl) _
  obtain ⟨report, s', hadd, hencoder, hs'⟩ := hfresh.keeps.add_ok x
  have hreachable : s'.Reachable := .write (.fresh hfresh) (.add x) (Account.discard_ok hadd)
  have hwider : q.Widens p := ⟨.inl rfl, .inr rfl, .inl rfl, .inr rfl⟩
  have hstored : s.encoder.classify u x.object ≠ x.object := by decide
  have hasserts : (Dataset.assert s.encoder ∅ x).Asserts (s'.encoder.classifyTriple x.triple)
      x.contexts := by
    rw [hencoder]
    exact Dataset.asserts_add (.inr (by simp))
  obtain ⟨hfound, -⟩ := hs'.found hasserts
  have hplan : (q.normalize s'.encoder).plan s'.encoder.policy = .ok .subjectObject := rfl
  obtain ⟨more, hmore, hanswers⟩ := hs'.find_ok hplan
  have hnil : more = [] := by
    refine List.eq_nil_iff_forall_not_mem.2 fun y hy => ?_
    obtain ⟨A, hA, haccepts, -⟩ := (hanswers.mem y).1 hy
    rw [Dataset.assert, Dataset.getElem?_add] at hA
    split at hA
    · rename_i heq
      have hobject := (Pattern.normalize_accepts_iff.1 haccepts).2.2 x.object rfl
      rw [← heq] at hobject
      exact hstored hobject.symm
    · simp at hA
  exact ⟨report, s', hadd, hreachable, hwider, rfl, rfl, ⟨_, hfound⟩, hnil ▸ hmore⟩

end Store

end QuadStore
