import Mathlib.Data.List.Forall2
import Mathlib.Tactic.Common

/-! Synchronous circuits as step functions: runs over finite input sequences,
what a circuit emits along a run, and the rules that carry a fact about one
clock to every run.

Outputs are read before the edge, from the registers and the inputs of the
clock that is about to happen.
-/

set_option autoImplicit false

namespace Clocked

variable {S T I O : Type}

/-- The registers after the clocks `is`. -/
def run (step : S → I → S) (s : S) (is : List I) : S := is.foldl step s

/-- Everything emitted along a run, in order. -/
def emitted (step : S → I → S) (out : S → I → List O) : S → List I → List O
  | _, [] => []
  | s, i :: is => out s i ++ emitted step out (step s i) is

/-- Every clock of the run meets a condition on the registers and the inputs it finds. -/
def Always (step : S → I → S) (ok : S → I → Prop) : S → List I → Prop
  | _, [] => True
  | s, i :: is => ok s i ∧ Always step ok (step s i) is

instance Always.decidable (step : S → I → S) (ok : S → I → Prop) [∀ s i, Decidable (ok s i)] :
    ∀ (is : List I) (s : S), Decidable (Always step ok s is)
  | [], _ => .isTrue trivial
  | i :: is, s =>
      have := Always.decidable step ok is (step s i)
      inferInstanceAs (Decidable (ok s i ∧ Always step ok (step s i) is))

section
variable (step : S → I → S)

@[simp] theorem run_nil (s : S) : run step s [] = s := rfl

@[simp] theorem run_cons (s : S) (i : I) (is : List I) :
    run step s (i :: is) = run step (step s i) is := rfl

/-- What follows a circuit does not disturb it. -/
theorem run_fst (follow : S → I → T → T) (s : S) (t : T) (is : List I) :
    (run (fun (x : S × T) i => (step x.1 i, follow x.1 i x.2)) (s, t) is).1 = run step s is := by
  induction is generalizing s t with
  | nil => rfl
  | cons i is ih => exact ih (step s i) (follow s i t)

theorem run_append (s : S) (is js : List I) :
    run step s (is ++ js) = run step (run step s is) js := by
  simp [run]

@[simp] theorem emitted_nil (out : S → I → List O) (s : S) : emitted step out s [] = [] := rfl

@[simp] theorem emitted_cons (out : S → I → List O) (s : S) (i : I) (is : List I) :
    emitted step out s (i :: is) = out s i ++ emitted step out (step s i) is := rfl

theorem emitted_append (out : S → I → List O) (s : S) (is js : List I) :
    emitted step out s (is ++ js) =
      emitted step out s is ++ emitted step out (run step s is) js := by
  induction is generalizing s with
  | nil => rfl
  | cons i is ih => simp [ih]

theorem emitted_nothing {out : S → I → List O} (nothing : ∀ s i, out s i = []) (s : S) (is : List I) :
    emitted step out s is = [] := by
  induction is generalizing s with
  | nil => rfl
  | cons i is ih => simp [nothing, ih]

theorem always_append {ok : S → I → Prop} (s : S) (is js : List I) :
    Always step ok s (is ++ js) ↔ Always step ok s is ∧ Always step ok (run step s is) js := by
  induction is generalizing s with
  | nil => simp [Always]
  | cons i is ih => simp [Always, ih, and_assoc]

end

section Rules
variable {step : S → I → S} {ok : S → I → Prop} {inv : S → Prop}

theorem Always.mono {ok' : S → I → Prop} (weaker : ∀ s i, ok s i → ok' s i) {s : S} {is : List I}
    (always : Always step ok s is) : Always step ok' s is := by
  induction is generalizing s with
  | nil => trivial
  | cons i is ih => exact ⟨weaker s i always.1, ih always.2⟩

theorem Always.and {ok' : S → I → Prop} {s : S} {is : List I} (first : Always step ok s is)
    (second : Always step ok' s is) : Always step (fun s i => ok s i ∧ ok' s i) s is := by
  induction is generalizing s with
  | nil => trivial
  | cons i is ih => exact ⟨⟨first.1, second.1⟩, ih first.2 second.2⟩

/-- An invariant of one clock is an invariant of every run. -/
theorem run_invariant (kept : ∀ s i, inv s → ok s i → inv (step s i)) {s : S} {is : List I}
    (start : inv s) (always : Always step ok s is) : inv (run step s is) := by
  induction is generalizing s with
  | nil => exact start
  | cons i is ih => exact ih (kept s i start always.1) always.2

/-- An invariant strengthens the condition that every clock meets. -/
theorem Always.with_invariant (kept : ∀ s i, inv s → ok s i → inv (step s i)) {s : S} {is : List I}
    (start : inv s) (always : Always step ok s is) :
    Always step (fun s i => inv s ∧ ok s i) s is := by
  induction is generalizing s with
  | nil => trivial
  | cons i is ih => exact ⟨⟨start, always.1⟩, ih (kept s i start always.1) always.2⟩

/-- A condition that the inputs meet in every state holds along the run. -/
theorem always_of_inputs {is : List I} (holds : ∀ i ∈ is, ∀ s, ok s i) (s : S) : Always step ok s is := by
  induction is generalizing s with
  | nil => trivial
  | cons i is ih =>
    exact ⟨holds i List.mem_cons_self s, ih (fun j member => holds j (List.mem_cons_of_mem i member)) _⟩

/-- What the condition says of an input in every state holds of all inputs of the run. -/
theorem Always.inputs {p : I → Prop} (gives : ∀ s i, ok s i → p i) {s : S} {is : List I} (always : Always step ok s is) :
    ∀ i ∈ is, p i := by
  induction is generalizing s with
  | nil => exact fun i member => absurd member List.not_mem_nil
  | cons i is ih => exact List.forall_mem_cons.mpr ⟨gives s i always.1, ih always.2⟩

/-- A condition that holds of every state and input holds along every run. -/
theorem always_of_forall (holds : ∀ s i, ok s i) (s : S) (is : List I) : Always step ok s is := by
  induction is generalizing s with
  | nil => trivial
  | cons i is ih => exact ⟨holds s i, ih _⟩

/-- Where every clock from a good state keeps it good exactly if a condition is met, a run visits good
states only exactly if every clock meets the condition. -/
theorem always_iff_of {good : S → Prop} {env : S → I → Prop}
    (kept : ∀ s i, inv s → env s i → ok s i → inv (step s i))
    (exact : ∀ s i, inv s → env s i → good s → (good (step s i) ↔ ok s i)) {s : S} {is : List I}
    (assumed : Always step env s is) (start : inv s) (first : good s) :
    (∀ before, before <+: is → good (run step s before)) ↔ Always step ok s is := by
  induction is generalizing s with
  | nil =>
    refine ⟨fun _ => trivial, fun _ before initial => ?_⟩
    rw [List.prefix_nil.mp initial]
    exact first
  | cons i is ih =>
    have now := exact s i start assumed.1 first
    constructor
    · intro holds
      have meets : ok s i := now.mp (holds [i] (List.prefix_append [i] is))
      refine ⟨meets, (ih assumed.2 (kept s i start assumed.1 meets) (now.mpr meets)).mp fun before initial => ?_⟩
      exact holds (i :: before) (List.cons_prefix_cons.mpr ⟨rfl, initial⟩)
    · rintro ⟨meets, rest⟩ before initial
      rcases List.prefix_cons_iff.mp initial with rfl | ⟨tail, rfl, later⟩
      · exact first
      · exact (ih assumed.2 (kept s i start assumed.1 meets) (now.mpr meets)).mpr rest tail later

/-- Without an assumption on the inputs. -/
theorem always_iff {good : S → Prop} (kept : ∀ s i, inv s → inv (step s i))
    (exact : ∀ s i, inv s → good s → (good (step s i) ↔ ok s i)) {s : S} (is : List I) (start : inv s)
      (first : good s) :
    (∀ before, before <+: is → good (run step s before)) ↔ Always step ok s is := by
  have free : Always step (fun _ _ => True) s is := always_of_forall (fun _ _ => trivial) s is
  exact always_iff_of (fun s i inv _ _ => kept s i inv) (fun s i inv _ => exact s i inv) free start first

/-- A conservation law of one clock, `emitted ++ held afterwards = held before ++ accepted`,
is a conservation law of every run. -/
theorem conservation {out acc : S → I → List O} {held : S → List O}
    (kept : ∀ s i, inv s → ok s i → inv (step s i))
    (law : ∀ s i, inv s → ok s i → out s i ++ held (step s i) = held s ++ acc s i)
    {s : S} {is : List I} (start : inv s) (always : Always step ok s is) :
    emitted step out s is ++ held (run step s is) = held s ++ emitted step acc s is := by
  induction is generalizing s with
  | nil => simp
  | cons i is ih =>
    have rest := ih (kept s i start always.1) always.2
    simp only [emitted_cons, run_cons, List.append_assoc]
    rw [rest, ← List.append_assoc, law s i start always.1, List.append_assoc]

/-- Where the registers do not say what they hold, but stand in a relation to it. -/
theorem conservation_rel {out acc : S → I → List O} {holds : S → List O → Prop}
    (law : ∀ s i held, holds s held → ok s i →
      ∃ later, holds (step s i) later ∧ out s i ++ later = held ++ acc s i) {s : S} {is : List I} {held : List O}
    (start : holds s held) (always : Always step ok s is) :
    ∃ later, holds (run step s is) later ∧
      emitted step out s is ++ later = held ++ emitted step acc s is := by
  induction is generalizing s held with
  | nil => exact ⟨held, start, by simp⟩
  | cons i is ih =>
    obtain ⟨middle, next, now⟩ := law s i held start always.1
    obtain ⟨later, last, rest⟩ := ih next always.2
    refine ⟨later, last, ?_⟩
    rw [emitted_cons, emitted_cons, List.append_assoc, rest, ← List.append_assoc, now, List.append_assoc]

/-- A conservation law that needs neither an invariant nor a condition on the inputs. -/
theorem conservation_all {out acc : S → I → List O} {held : S → List O}
    (law : ∀ s i, out s i ++ held (step s i) = held s ++ acc s i) (s : S) (is : List I) :
    emitted step out s is ++ held (run step s is) = held s ++ emitted step acc s is := by
  have always : Always step (fun _ _ => True) s is := always_of_forall (fun _ _ => trivial) s is
  exact @conservation S I O step (fun _ _ => True) (fun _ => True) out acc held
    (fun _ _ _ _ => trivial) (fun s i _ _ => law s i) s is trivial always

/-- Two circuits on one run whose outputs are related clock by clock. -/
theorem emitted_forall₂ {P : Type} {out : S → I → List O} {out' : S → I → List P} {rel : O → P → Prop}
    (kept : ∀ s i, inv s → inv (step s i)) (holds : ∀ s i, inv s → List.Forall₂ rel (out s i) (out' s i))
    {s : S} (start : inv s) (is : List I) :
    List.Forall₂ rel (emitted step out s is) (emitted step out' s is) := by
  induction is generalizing s with
  | nil => exact List.Forall₂.nil
  | cons i is ih => exact List.rel_append (holds s i start) (ih (kept s i start))

/-- What holds of everything emitted in one clock holds of everything emitted along a run. -/
theorem emitted_forall {out : S → I → List O} {p : O → Prop}
    (kept : ∀ s i, inv s → ok s i → inv (step s i)) (holds : ∀ s i, inv s → ok s i → ∀ o ∈ out s i, p o)
    {s : S} {is : List I} (start : inv s) (always : Always step ok s is) :
    ∀ o ∈ emitted step out s is, p o := by
  induction is generalizing s with
  | nil => simp
  | cons i is ih =>
    intro o member
    rcases List.mem_append.mp member with now | later
    · exact holds s i start always.1 o now
    · exact ih (kept s i start always.1) always.2 o later

/-- A function of lists that respects concatenation can be applied clock by clock. -/
theorem emitted_hom {P : Type} {f : List O → List P} (nil : f [] = [])
    (append : ∀ a b, f (a ++ b) = f a ++ f b) (out : S → I → List O) (s : S) (is : List I) :
    f (emitted step out s is) = emitted step (fun s i => f (out s i)) s is := by
  induction is generalizing s with
  | nil => exact nil
  | cons i is ih => rw [emitted_cons, append, ih, emitted_cons]

theorem emitted_flatMap {P : Type} (out : S → I → List O) (f : O → List P) (s : S) (is : List I) :
    (emitted step out s is).flatMap f = emitted step (fun s i => (out s i).flatMap f) s is :=
  emitted_hom (f := fun l => l.flatMap f) rfl (fun _ _ => List.flatMap_append) out s is

/-- A circuit that is fed by another one sees what the other emits, whatever the clocks in between. -/
theorem emitted_fed {J P : Type} (other : T → J → T) (tells : T → J → List P) (view : S → T) (feed : S → I → List J)
    (kept : ∀ s i, inv s → ok s i → inv (step s i))
    (follows : ∀ s i, inv s → ok s i → view (step s i) = run other (view s) (feed s i)) {s : S} {is : List I}
    (start : inv s) (always : Always step ok s is) :
    emitted step (fun s i => emitted other tells (view s) (feed s i)) s is =
      emitted other tells (view s) (emitted step feed s is) := by
  induction is generalizing s with
  | nil => rfl
  | cons i is ih =>
    rw [emitted_cons, emitted_cons, emitted_append, ih (kept s i start always.1) always.2,
      follows s i start always.1]

end Rules

/-- Two circuits whose states stay related clock by clock emit the same along every run. -/
theorem emitted_congr {step : S → I → S} {step' : T → I → T} {rel : S → T → Prop}
    {ok : S → I → Prop} {out : S → I → List O} {out' : T → I → List O}
    (kept : ∀ s t i, rel s t → ok s i → rel (step s i) (step' t i))
    (same : ∀ s t i, rel s t → ok s i → out s i = out' t i)
    {s : S} {t : T} {is : List I} (start : rel s t) (always : Always step ok s is) :
    emitted step out s is = emitted step' out' t is := by
  induction is generalizing s t with
  | nil => rfl
  | cons i is ih =>
    simp only [emitted_cons, same s t i start always.1, ih (kept s t i start always.1) always.2]

/-! ### Waveforms -/

/-- The registers at each clock, where the inputs are a function of the clock. -/
def trace (step : S → I → S) (s : S) (wave : Nat → I) : Nat → S
  | 0 => s
  | t + 1 => step (trace step s wave t) (wave t)

section Waveforms
variable {step : S → I → S} {s : S} (wave : Nat → I)

theorem trace_succ (t : Nat) : trace step s wave (t + 1) = step (trace step s wave t) (wave t) := rfl

/-- The first clocks of a waveform are a run. -/
theorem trace_eq_run (t : Nat) : trace step s wave t = run step s ((List.range t).map wave) := by
  induction t with
  | zero => rfl
  | succ t ih =>
    rw [trace_succ, ih, List.range_succ, List.map_append, run_append]
    rfl

/-- What every clock keeps holds at every clock. -/
theorem trace_invariant {inv : S → Prop} (kept : ∀ s i, inv s → inv (step s i)) (start : inv s) (t : Nat) :
    inv (trace step s wave t) := by
  have always : Always step (fun _ _ => True) s ((List.range t).map wave) :=
    always_of_forall (fun _ _ => trivial) s _
  rw [trace_eq_run]
  exact run_invariant (fun s i held _ => kept s i held) start always

end Waveforms

end Clocked
