import IcoZip.Library.Clocked

/-! Stages of a pipeline with a strobe forwards and a busy line backwards.

A stage may hold elements, insert elements of its own and withdraw what it has
offered but not yet handed over. What it must not do is stated by `Conserves`:
seen through a view that deletes the insertions, what it delivers and still
holds is what it held and accepted. Conservation composes in series, so a
pipeline is checked one stage at a time.
-/

set_option autoImplicit false

namespace Elastic

/-- A strobe with the data it qualifies. -/
structure Offer (A : Type) where
  stb : Bool
  data : A
  deriving DecidableEq, Repr

/-- The element that changes hands at a clock in which the receiver shows `busy`. -/
def Offer.taken {A : Type} (offer : Offer A) (busy : Bool) : List A :=
  if offer.stb && !busy then [offer.data] else []

section
variable {A : Type} (offer : Offer A)

@[simp] theorem Offer.taken_busy : offer.taken true = [] := by simp [taken]

@[simp] theorem Offer.taken_idle (data : A) (busy : Bool) :
    Offer.taken ⟨false, data⟩ busy = [] := by simp [taken]

@[simp] theorem Offer.taken_ready (data : A) : Offer.taken ⟨true, data⟩ false = [data] := rfl

end

/-- Registers `S`, side inputs `E`, elements `A` in and `B` out. -/
structure Stage (S E A B : Type) where
  /-- The edge: side inputs, what the predecessor offers, whether the successor is busy. -/
  step : S → E → Offer A → Bool → S
  /-- The busy line shown to the predecessor. -/
  busy : S → Bool → Bool
  /-- What is offered to the successor. -/
  out : S → Offer B

/-- The stage in front of another one, joined by the second stage's busy line. -/
def Stage.series {S₁ S₂ E₁ E₂ A B C : Type} (first : Stage S₁ E₁ A B) (second : Stage S₂ E₂ B C) :
    Stage (S₁ × S₂) (E₁ × E₂) A C where
  step s e up busy :=
    (first.step s.1 e.1 up (second.busy s.2 busy), second.step s.2 e.2 (first.out s.1) busy)
  busy s busy := first.busy s.1 (second.busy s.2 busy)
  out s := second.out s.2

/-- Nothing visible is lost, duplicated or reordered: `viewIn` and `viewOut` say what an
element amounts to for the observer, `held` what the registers still amount to. -/
structure Conserves {S E A B V : Type} (stage : Stage S E A B) (inv : S → Prop)
    (viewIn : A → List V) (viewOut : B → List V) (held : S → List V) : Prop where
  kept : ∀ s e up busy, inv s → inv (stage.step s e up busy)
  law : ∀ s e up busy, inv s →
    ((stage.out s).taken busy).flatMap viewOut ++ held (stage.step s e up busy) =
      held s ++ (up.taken (stage.busy s busy)).flatMap viewIn

theorem Conserves.series {S₁ S₂ E₁ E₂ A B C V : Type}
    {first : Stage S₁ E₁ A B} {second : Stage S₂ E₂ B C}
    {inv₁ : S₁ → Prop} {inv₂ : S₂ → Prop} {viewA : A → List V} {viewB : B → List V}
    {viewC : C → List V} {held₁ : S₁ → List V} {held₂ : S₂ → List V}
    (left : Conserves first inv₁ viewA viewB held₁)
    (right : Conserves second inv₂ viewB viewC held₂) :
    Conserves (first.series second) (fun s => inv₁ s.1 ∧ inv₂ s.2) viewA viewC
      (fun s => held₂ s.2 ++ held₁ s.1) where
  kept s e up busy := fun ⟨inv₁, inv₂⟩ => ⟨left.kept _ _ _ _ inv₁, right.kept _ _ _ _ inv₂⟩
  law s e up busy := by
    rintro ⟨inv₁, inv₂⟩
    have near := left.law s.1 e.1 up (second.busy s.2 busy) inv₁
    have far := right.law s.2 e.2 (first.out s.1) busy inv₂
    simp only [Stage.series]
    -- what the first stage hands over is what the second one accepts
    rw [← List.append_assoc, far, List.append_assoc, near, List.append_assoc]

/-- One clock of a stage as a circuit: side inputs, the predecessor and the successor. -/
abbrev Stage.clock {S E A B : Type} (stage : Stage S E A B) (s : S) (i : E × Offer A × Bool) : S :=
  stage.step s i.1 i.2.1 i.2.2

def Stage.accepted {S E A B : Type} (stage : Stage S E A B) (s : S) (i : E × Offer A × Bool) : List A :=
  i.2.1.taken (stage.busy s i.2.2)

def Stage.delivered {S E A B : Type} (stage : Stage S E A B) (s : S) (i : E × Offer A × Bool) : List B :=
  (stage.out s).taken i.2.2

/-- The conservation law over a whole run, for every pattern of offers and busy clocks. -/
theorem Conserves.run {S E A B V : Type} {stage : Stage S E A B} {inv : S → Prop}
    {viewIn : A → List V} {viewOut : B → List V} {held : S → List V}
    (conserves : Conserves stage inv viewIn viewOut held) {s : S} (start : inv s)
    (is : List (E × Offer A × Bool)) :
    (Clocked.emitted stage.clock stage.delivered s is).flatMap viewOut ++
        held (Clocked.run stage.clock s is) =
      held s ++ (Clocked.emitted stage.clock stage.accepted s is).flatMap viewIn := by
  simp only [Clocked.emitted_flatMap]
  have always : Clocked.Always stage.clock (fun _ _ => True) s is :=
    Clocked.always_of_forall (fun _ _ => trivial) s is
  exact Clocked.conservation (fun s i inv _ => conserves.kept s i.1 i.2.1 i.2.2 inv)
    (fun s i inv _ => conserves.law s i.1 i.2.1 i.2.2 inv) start always

end Elastic
