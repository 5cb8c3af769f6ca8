import GraphTex.Fault
import GraphTex.Span

/-!
# Reports

A report is a fault with the span it is about. Work that may find faults returns a `Logged` value:
its result and its reports, in the order in which they were made. Sequencing appends, so no step
can take back or reorder what an earlier step reported.
-/

namespace GraphTex

/-- A fault and the part of the source it is about. -/
structure Report where
  fault : Fault
  span : Span
  deriving DecidableEq, Repr

/-- A result together with the reports made on the way to it. -/
structure Logged (α : Type) where
  value : α
  reports : List Report
  deriving Repr

namespace Logged

variable {α β : Type}

instance : Monad Logged where
  pure a := ⟨a, []⟩
  bind x f :=
    let y := f x.value
    ⟨y.value, x.reports ++ y.reports⟩

/-- Makes reports. -/
def tell (reports : List Report) : Logged Unit := ⟨(), reports⟩

/-- Makes one report and has the given result. -/
def failing (a : α) (fault : Fault) (span : Span) : Logged α := ⟨a, [⟨fault, span⟩]⟩

/-- Does the work on the members of a list in order. -/
def each (f : α → Logged β) : List α → Logged (List β)
  | [] => pure []
  | a :: rest => do
    let b ← f a
    let bs ← each f rest
    pure (b :: bs)

@[simp] theorem value_pure (a : α) : (pure a : Logged α).value = a := rfl

@[simp] theorem reports_pure (a : α) : (pure a : Logged α).reports = [] := rfl

@[simp] theorem value_bind (x : Logged α) (f : α → Logged β) :
    (x >>= f).value = (f x.value).value := rfl

@[simp] theorem reports_bind (x : Logged α) (f : α → Logged β) :
    (x >>= f).reports = x.reports ++ (f x.value).reports := rfl

@[simp] theorem reports_tell (reports : List Report) : (tell reports).reports = reports := rfl

@[simp] theorem value_failing (a : α) (fault : Fault) (span : Span) :
    (failing a fault span).value = a := rfl

@[simp] theorem reports_failing (a : α) (fault : Fault) (span : Span) :
    (failing a fault span).reports = [⟨fault, span⟩] := rfl

@[simp] theorem value_each (f : α → Logged β) (as : List α) :
    (each f as).value = as.map fun a => (f a).value := by
  induction as with
  | nil => rfl
  | cons a as ih => simp [each, ih]

@[simp] theorem reports_each (f : α → Logged β) (as : List α) :
    (each f as).reports = as.flatMap fun a => (f a).reports := by
  induction as with
  | nil => rfl
  | cons a as ih => simp [each, ih]

end Logged

end GraphTex
