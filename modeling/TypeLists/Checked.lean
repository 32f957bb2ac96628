import TypeLists.Fault

/-! Values with the findings made on the way. -/

namespace TypeLists

/-- A value with the findings made while it was computed. -/
structure Checked (result : Type) where
  /-- What was computed, with holes where a fault left something unknown. -/
  value : result
  /-- All findings, in the order in which they were made. -/
  findings : List Finding

namespace Checked

variable {source result : Type}

/-- A value without findings. -/
def clean (value : source) : Checked source := ⟨value, []⟩

/-- Go on with the value, and collect the findings of both parts. -/
def andThen (first : Checked source) (next : source → Checked result) : Checked result :=
  -- A fault never stops the search for further ones.
  ⟨(next first.value).value, first.findings ++ (next first.value).findings⟩

instance : Monad Checked where
  pure := clean
  bind := andThen

@[simp] theorem value_pure (value : source) : (pure value : Checked source).value = value := rfl

@[simp] theorem findings_pure (value : source) : (pure value : Checked source).findings = [] := rfl

@[simp] theorem value_bind (first : Checked source) (next : source → Checked result) :
    (first >>= next).value = (next first.value).value := rfl

@[simp] theorem findings_bind (first : Checked source) (next : source → Checked result) :
    (first >>= next).findings = first.findings ++ (next first.value).findings := rfl

@[ext] theorem ext {first second : Checked source} (sameValue : first.value = second.value)
    (sameFindings : first.findings = second.findings) : first = second := by
  -- A checked value is nothing but its two fields.
  cases first; cases second; simp_all

/-- Faults that come up at a stage. -/
def note (stage : Stage) (faults : List Fault) : Checked Unit :=
  ⟨(), faults.map fun fault => ⟨stage, fault⟩⟩

/-- The faults that are reported of a body with these findings. -/
def faults (checked : Checked source) : List Fault :=
  Finding.reported checked.findings

end Checked

end TypeLists
