import LogLayout.Complaint

/-!
# Taking readings apart

A reading that is put together out of others is valid exactly when its parts are. Each way to put
readings together has one lemma that says which value it has, and `complaints_eq_nil_iff` turns
"there is a value" into "there is no complaint", for which the equations on complaints add up.
-/

namespace LogLayout.Checked

variable {α β : Type} {c : Checked α} {a : α}

@[simp] theorem complaints_valid : (valid a).complaints = [] := rfl

theorem complaints_eq_nil_iff : c.complaints = [] ↔ ∃ a, c = .valid a := by
  cases c with
  | valid a => simp [complaints]
  | invalid first rest => simp [complaints]

theorem map_eq_valid_iff {f : α → β} {b : β} :
    c.map f = .valid b ↔ ∃ a, c = .valid a ∧ f a = b := by
  cases c with
  | valid a => simp [map]
  | invalid first rest => simp [map]

theorem apply_eq_valid_iff {f : Checked (α → β)} {b : β} :
    f.apply c = .valid b ↔ ∃ g, f = .valid g ∧ ∃ a, c = .valid a ∧ g a = b := by
  cases f with
  | valid g => simp [apply, map_eq_valid_iff]
  | invalid first rest => simp [apply]

theorem butFor_eq_valid_iff {further : List Complaint} :
    c.butFor further = .valid a ↔ c = .valid a ∧ further = [] := by
  cases c with
  | valid b => cases further <;> simp [butFor]
  | invalid first rest => simp [butFor]

theorem at'_eq_valid_iff {path : List String} {x : Except Reason α} :
    at' path x = .valid a ↔ x = .ok a := by
  cases x with
  | ok b => simp [at']
  | error reason => simp [at']

variable {entries : List (Datum × Datum)} {name : String} {default : α}
  {read : Datum → Except Reason α}

/-- A member has the value that is read from its datum, or its default if it is absent. -/
theorem member_eq_valid_iff :
    member entries name default read = .valid a ↔
      (∃ d, Datum.lookup? entries (.text name) = some d ∧ read d = .ok a) ∨
        Datum.lookup? entries (.text name) = none ∧ default = a := by
  rw [member]
  cases Datum.lookup? entries (.text name) with
  | some d => simp [at'_eq_valid_iff]
  | none => simp

theorem required_eq_valid_iff :
    required entries name read = .valid a ↔
      ∃ d, Datum.lookup? entries (.text name) = some d ∧ read d = .ok a := by
  rw [required]
  cases Datum.lookup? entries (.text name) with
  | some d => simp [at'_eq_valid_iff]
  | none => simp

/-- There is nothing to say against a member that is absent or can be read. -/
theorem complaints_member_eq_nil_iff :
    (member entries name default read).complaints = [] ↔
      ∀ d, Datum.lookup? entries (.text name) = some d → ∃ a, read d = .ok a := by
  rw [complaints_eq_nil_iff]
  simp only [member_eq_valid_iff]
  cases Datum.lookup? entries (.text name) with
  | some d => simp
  | none => simp

/-- A member that must be there has to be readable as well. -/
theorem complaints_required_eq_nil_iff :
    (required entries name read).complaints = [] ↔
      (∀ d, Datum.lookup? entries (.text name) = some d → ∃ a, read d = .ok a) ∧
        Datum.lookup? entries (.text name) ≠ none := by
  rw [complaints_eq_nil_iff]
  simp only [required_eq_valid_iff]
  cases Datum.lookup? entries (.text name) with
  | some d => simp
  | none => simp

end LogLayout.Checked
