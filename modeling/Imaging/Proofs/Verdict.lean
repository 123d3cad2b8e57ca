/-
What a sequence of checks decides. A request has a list of requirements, each with the refusal that it earns where it
does not hold. A verdict is decided by such a list when it accepts exactly the requests that meet all of them, and
refuses every other one with the refusal of the first that fails. `DecidedBy.require` and `DecidedBy.requireSome` read
the list off a chain of checks, one requirement a check; `DecidedBy.unique` says that the list fixes the verdict.
-/
import Imaging.Refusal

namespace Imaging

/-- a condition on a request, and what a request that does not meet it is told -/
structure Requirement where
  holds : Prop
  refusal : Refusal

/-- `e` is the refusal of the first requirement that fails -/
def FirstFailing (reqs : List Requirement) (e : Refusal) : Prop :=
  ∃ before q after, reqs = before ++ q :: after ∧ (∀ p ∈ before, p.holds) ∧ ¬q.holds ∧ q.refusal = e

/-- the verdict accepts where every requirement holds, and else names the first one that fails -/
structure DecidedBy (verdict : Except Refusal Unit) (reqs : List Requirement) : Prop where
  accepted_iff : verdict = .ok () ↔ ∀ q ∈ reqs, q.holds
  refused_iff : ∀ e, verdict = .error e ↔ FirstFailing reqs e

theorem not_firstFailing_nil (e : Refusal) : ¬FirstFailing [] e := by
  rintro ⟨before, q, after, h, -⟩
  simp at h

theorem firstFailing_cons_of_holds {q : Requirement} {reqs : List Requirement} {e : Refusal} (h : q.holds) :
    FirstFailing (q :: reqs) e ↔ FirstFailing reqs e := by
  constructor
  · rintro ⟨before, p, after, heq, hbefore, hp, he⟩
    cases before with
    | nil =>
      obtain ⟨rfl, -⟩ := List.cons.inj heq
      exact absurd h hp
    | cons b before =>
      obtain ⟨-, rfl⟩ := List.cons.inj heq
      exact ⟨before, p, after, rfl, fun r hr => hbefore r (List.mem_cons_of_mem _ hr), hp, he⟩
  · rintro ⟨before, p, after, rfl, hbefore, hp, he⟩
    refine ⟨q :: before, p, after, rfl, fun r hr => ?_, hp, he⟩
    rcases List.mem_cons.mp hr with rfl | hr
    · exact h
    · exact hbefore r hr

theorem firstFailing_cons_of_not {q : Requirement} {reqs : List Requirement} {e : Refusal} (h : ¬q.holds) :
    FirstFailing (q :: reqs) e ↔ q.refusal = e := by
  constructor
  · rintro ⟨before, p, after, heq, hbefore, hp, he⟩
    cases before with
    | nil =>
      obtain ⟨rfl, -⟩ := List.cons.inj heq
      exact he
    | cons b before =>
      obtain ⟨rfl, -⟩ := List.cons.inj heq
      exact absurd (hbefore q (List.mem_cons_self ..)) h
  · rintro rfl
    exact ⟨[], q, reqs, rfl, by simp, h, rfl⟩

namespace DecidedBy

variable {verdict verdict' : Except Refusal Unit} {q : Requirement} {reqs : List Requirement}

/-- the requirements of a request leave no choice about its verdict -/
theorem unique (h : DecidedBy verdict reqs) (h' : DecidedBy verdict' reqs) : verdict = verdict' := by
  cases hv : verdict' with
  | ok u => exact h.accepted_iff.mpr (h'.accepted_iff.mp hv)
  | error e => exact (h.refused_iff e).mpr ((h'.refused_iff e).mp hv)

theorem nil : DecidedBy (.ok ()) [] where
  accepted_iff := by simp
  refused_iff e := by simp [not_firstFailing_nil]

/-- one requirement in front of others: what happens where it fails, and that the others decide where it holds -/
theorem cons (hfail : ¬q.holds → verdict = .error q.refusal) (hpass : q.holds → DecidedBy verdict reqs) :
    DecidedBy verdict (q :: reqs) := by
  by_cases h : q.holds
  · constructor
    · rw [(hpass h).accepted_iff, List.forall_mem_cons, and_iff_right h]
    · intro e
      rw [(hpass h).refused_iff, firstFailing_cons_of_holds h]
  · constructor
    · rw [hfail h, List.forall_mem_cons]
      exact ⟨fun h' => by simp at h', fun h' => absurd h'.1 h⟩
    · intro e
      rw [hfail h, firstFailing_cons_of_not h, Except.error.injEq]

variable {p : Prop} [Decidable p] {e : Refusal}

theorem require {next : Unit → Except Refusal Unit} (hp : p ↔ q.holds) (he : e = q.refusal)
    (h : p → DecidedBy (next ()) reqs) : DecidedBy (Imaging.require p e >>= next) (q :: reqs) := by
  refine cons (fun hq => ?_) fun hq => ?_
  · rw [require_of_not (mt hp.mp hq), he]
    rfl
  · rw [require_of (hp.mpr hq)]
    exact h (hp.mpr hq)

theorem require_last (hp : p ↔ q.holds) (he : e = q.refusal) : DecidedBy (Imaging.require p e) [q] := by
  have h : Imaging.require p e = Imaging.require p e >>= fun _ => .ok () := by
    by_cases hp : p
    · rw [require_of hp]
      rfl
    · rw [require_of_not hp]
      rfl
  rw [h]
  exact require hp he fun _ => nil

theorem requireSome {α : Type} {o : Option α} {next : α → Except Refusal Unit} (hnone : ¬q.holds → o = none)
    (he : e = q.refusal) (hsome : q.holds → ∃ a, o = some a ∧ DecidedBy (next a) reqs) :
    DecidedBy (Imaging.requireSome o e >>= next) (q :: reqs) := by
  refine cons (fun hq => ?_) fun hq => ?_
  · rw [hnone hq, he]
    rfl
  · obtain ⟨a, rfl, h⟩ := hsome hq
    exact h

theorem bufferLength {c : Coding} {w h bits n : Nat} {next : Nat → Except Refusal Unit}
    (hbits : w * h * c.bitsPerPixel = bits) (hbytes : 8 * n = bits) (hnext : DecidedBy (next n) reqs) :
    DecidedBy (Imaging.requireSome (c.bufferLength? w h) e >>= next)
      ({ holds := bits < sizeLimit, refusal := e } :: reqs) := by
  subst hbits
  refine requireSome (fun hlarge => ?_) rfl fun hsmall => ⟨n, ?_, hnext⟩
  · rw [Option.eq_none_iff_forall_ne_some]
    exact fun m hm => hlarge (Coding.bufferLength?_eq_some_iff.mp hm).1
  · exact Coding.bufferLength?_eq_some_iff.mpr ⟨hsmall, hbytes⟩

end DecidedBy

end Imaging
