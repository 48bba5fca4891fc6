import Mathlib.Order.Filter.AtTopBot.Basic
import Mathlib.Order.Filter.Finite

/-!
# Runs that may not end

A walk that follows numbers ends, reads something that is not there, or goes on forever.  A run is
the outcome of such a walk, and the two ways to have no result are not told apart.  A walk that calls
itself is the step that it takes, given what its calls come to: it has the result that it has
whenever calls may be nested deeply enough.

## Main results

* `Run.fix_eq_some_iff`: a result is there from some depth on.
* `Run.fix_of_calls`, `Run.fix_of_call`, `Run.fix_of_no_call`: a run that calls itself ends if the
  calls that its step makes end.
* `Run.mapM_map`, `Run.findSomeM?_map`, …: what runs over a list come to when every run ends.
-/

namespace StateGuard

/-- The outcome of a run that follows numbers. There is none if the run reads a part that the table
does not have, or an argument that a call does not have, and none if the run never ends. -/
abbrev Run (α : Type) : Type := Option α

namespace Run

/-! ## Calls -/

section Calls

open Filter

variable {α β κ : Type} {step : (α → Run β) → α → Run β} {a : α} {b : β}

theorem some_bind (a : α) (run : α → Run β) : (some a >>= run) = run a := rfl

/-- A run that calls itself, as far as it comes with calls nested no deeper than `depth`. -/
def upTo (step : (α → Run β) → α → Run β) : Nat → α → Run β
  | 0, _ => none
  | depth + 1, a => step (upTo step depth) a

open Classical in
/-- What a run that calls itself comes to: the result that it has as soon as calls may be nested
deeply enough. -/
noncomputable def fix (step : (α → Run β) → α → Run β) (a : α) : Run β :=
  if h : ∃ b, ∀ᶠ depth in atTop, upTo step depth a = some b then some h.choose else none

theorem fix_eq_some_iff :
    fix step a = some b ↔ ∀ᶠ depth in atTop, upTo step depth a = some b := by
  unfold fix
  constructor
  · intro h
    split at h
    · next hEnds => exact Option.some.inj h ▸ hEnds.choose_spec
    · cases h
  · intro h
    have hEnds : ∃ b, ∀ᶠ depth in atTop, upTo step depth a = some b := ⟨b, h⟩
    obtain ⟨depth, hChosen, hEnd⟩ := (hEnds.choose_spec.and h).exists
    rw [dif_pos hEnds]
    exact hChosen.symm.trans hEnd

/-- A deeper call is a step over the calls below it. -/
theorem eventually_step_iff {P : (α → Run β) → Prop} :
    (∀ᶠ depth in atTop, P (step (upTo step depth))) ↔
      ∀ᶠ depth in atTop, P (upTo step depth) := by
  conv_rhs => rw [← map_add_atTop_eq_nat 1, eventually_map]
  rfl

/-- **A run that calls itself ends** if the calls that its step makes end. -/
theorem fix_of_calls (calls : List κ) (place : κ → α) (result : κ → β)
    (hCalls : ∀ k ∈ calls, fix step (place k) = some (result k))
    (hStep : ∀ self, (∀ k ∈ calls, self (place k) = some (result k)) → step self a = some b) :
    fix step a = some b := by
  have hEnd : ∀ᶠ depth in atTop, ∀ k ∈ calls, upTo step depth (place k) = some (result k) :=
    (eventually_all_finite calls.finite_toSet).2 fun k hk => fix_eq_some_iff.1 (hCalls k hk)
  rw [fix_eq_some_iff, ← eventually_step_iff (P := fun run => run a = some b)]
  filter_upwards [hEnd] with depth hDepth
  exact hStep _ hDepth

theorem fix_of_call {inner : α} {c : β} (hCall : fix step inner = some c)
    (hStep : ∀ self, self inner = some c → step self a = some b) : fix step a = some b :=
  fix_of_calls [inner] id (fun _ => c) (by simpa using hCall) fun self hSelf =>
    hStep self (hSelf inner List.mem_cons_self)

theorem fix_of_no_call (hStep : ∀ self, step self a = some b) : fix step a = some b :=
  fix_of_calls [] id (fun _ => b) (by simp) fun self _ => hStep self

end Calls

/-! ## Runs over a list -/

section Lists

variable {α β γ δ : Type} {f : α → β} {l : List α}

theorem mapM_map {run : β → Run γ} {p : α → γ} (h : ∀ a ∈ l, run (f a) = some (p a)) :
    (l.map f).mapM run = some (l.map p) := by
  induction l with
  | nil => rfl
  | cons a l ih =>
      have hRest := ih fun b hb => h b (List.mem_cons_of_mem a hb)
      simp [List.mapM_cons, h a List.mem_cons_self, hRest]

theorem findSomeM?_map {run : β → Run (Option δ)} {p : α → Option γ} {g : γ → δ}
    (h : ∀ a ∈ l, run (f a) = some ((p a).map g)) :
    (l.map f).findSomeM? run = some ((l.findSome? p).map g) := by
  induction l with
  | nil => rfl
  | cons a l ih =>
      have hRest := ih fun b hb => h b (List.mem_cons_of_mem a hb)
      rw [List.map_cons, List.findSomeM?, List.findSome?_cons, h a List.mem_cons_self]
      cases p a with
      | none => exact hRest
      | some found => rfl

theorem findM?_map {run : β → Run Bool} {p : α → Bool} (h : ∀ a ∈ l, run (f a) = some (p a)) :
    (l.map f).findM? run = some ((l.find? p).map f) := by
  induction l with
  | nil => rfl
  | cons a l ih =>
      have hRest := ih fun b hb => h b (List.mem_cons_of_mem a hb)
      rw [List.map_cons, List.findM?, List.find?_cons, h a List.mem_cons_self]
      cases p a with
      | false => exact hRest
      | true => rfl

theorem filterM_map {run : β → Run Bool} {p : α → Bool} (h : ∀ a ∈ l, run (f a) = some (p a)) :
    (l.map f).filterM run = some ((l.filter p).map f) := by
  have hAux : ∀ acc, List.filterAuxM run (l.map f) acc =
      some (((l.filter p).map f).reverse ++ acc) := by
    induction l with
    | nil => exact fun acc => rfl
    | cons a l ih =>
        intro acc
        have hRest := ih fun b hb => h b (List.mem_cons_of_mem a hb)
        rw [List.map_cons, List.filterAuxM, h a List.mem_cons_self, some_bind, hRest]
        cases hp : p a <;> simp [hp]
  rw [List.filterM, hAux, some_bind]
  simp

theorem anyM_map {run : β → Run Bool} {p : α → Bool} (h : ∀ a ∈ l, run (f a) = some (p a)) :
    (l.map f).anyM run = some (l.any p) := by
  induction l with
  | nil => rfl
  | cons a l ih =>
      have hRest := ih fun b hb => h b (List.mem_cons_of_mem a hb)
      rw [List.map_cons, List.anyM, List.any_cons, h a List.mem_cons_self]
      cases p a with
      | false => exact hRest
      | true => rfl

end Lists

end Run

end StateGuard
