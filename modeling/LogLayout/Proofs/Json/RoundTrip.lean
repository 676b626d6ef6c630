import LogLayout.Proofs.Json.Lexing
import LogLayout.Json.Reader

/-!
# Reading back written JSON

The written text of a JSON value is read as the value again (`read_write`), as long as readers keep
to it: there are no floating-point numbers in it, its integers have 64 bits, no object has a name
twice, and it is not nested too deeply.
-/

namespace LogLayout.Json

/-- The values that reading leaves as they were written, nested up to a depth. -/
inductive Stable : Nat → Json → Prop
  | null {n : Nat} : Stable n .null
  | bool {n : Nat} (b : Bool) : Stable n (.bool b)
  | int {n : Nat} {i : Int} (fits : Fits64 i) : Stable n (.int i)
  | text {n : Nat} (s : String) : Stable n (.text s)
  | list {n : Nat} {items : List Json} (each : ∀ j ∈ items, Stable n j) :
      Stable (n + 1) (.list items)
  | object {n : Nat} {members : List (String × Json)} (distinct : (members.map Prod.fst).Nodup)
      (each : ∀ m ∈ members, Stable n m.2) : Stable (n + 1) (.object members)

mutual

/-- The lexemes of a value. -/
def lexemes : Json → List Lexeme
  | text s => [.text s]
  | list items => .openList :: ([.comma].intercalate (lexemesAll items) ++ [.closeList])
  | object members =>
    .openObject :: ([.comma].intercalate (lexemesMembers members) ++ [.closeObject])
  | j => [.scalar j]

def lexemesAll : List Json → List (List Lexeme)
  | [] => []
  | j :: rest => lexemes j :: lexemesAll rest

def lexemesMembers : List (String × Json) → List (List Lexeme)
  | [] => []
  | (name, j) :: rest => (.text name :: .colon :: lexemes j) :: lexemesMembers rest

end

theorem lexemesAll_eq (items : List Json) : lexemesAll items = items.map lexemes := by
  induction items with
  | nil => rfl
  | cons j items ih => simp [lexemesAll, ih]

theorem lexemesMembers_eq (members : List (String × Json)) :
    lexemesMembers members = members.map fun m => .text m.1 :: .colon :: m.2.lexemes := by
  induction members with
  | nil => rfl
  | cons m members ih => simp [lexemesMembers, ih]

theorem writeAll_eq (items : List Json) : writeAll items = items.map write := by
  induction items with
  | nil => rfl
  | cons j items ih => simp [writeAll, ih]

theorem writeMembers_eq (members : List (String × Json)) :
    writeMembers members = members.map fun m => writeText m.1 ++ ':' :: m.2.write := by
  induction members with
  | nil => rfl
  | cons m members ih => simp [writeMembers, ih]

/-- What is written for a value is read as the lexemes of the value. -/
theorem readsAs_write {n : Nat} {j : Json} (h : Stable n j) :
    ReadsAs .strict j.write j.lexemes := by
  induction h with
  | null => exact .null
  | bool b => exact .bool b
  | int fits => exact .signed fits
  | text s => exact .writeText s
  | list each ih =>
      rw [write, lexemes, writeAll_eq, lexemesAll_eq]
      have close : ReadsAs .strict [']'] [.closeList] := .cons (by decide) (fun _ => rfl) .nil
      have items := (ReadsAs.commas ih).append close (stops_cons (by decide))
      exact items.cons (by decide) fun _ => rfl
  | @object n members distinct each ih =>
      rw [write, lexemes, writeMembers_eq, lexemesMembers_eq]
      have close : ReadsAs .strict ['\x7d'] [.closeObject] := .cons (by decide) (fun _ => rfl) .nil
      have member : ∀ m ∈ members, ReadsAs .strict (writeText m.1 ++ ':' :: m.2.write)
          (.text m.1 :: .colon :: m.2.lexemes) := by
        intro m hm
        have value := (ih m hm).cons (c := ':') (by decide) fun _ => rfl
        exact (ReadsAs.writeText m.1).append value (stops_cons (by decide))
      have rows := (ReadsAs.commas member).append close (stops_cons (by decide))
      exact rows.cons (by decide) fun _ => rfl

/-! ### Taking in lexemes -/

theorem insert_of_not_mem {members : List (String × Json)} {name : String} {j : Json}
    (fresh : name ∉ members.map Prod.fst) : insert members name j = members ++ [(name, j)] := by
  have absent : (members.any fun m => m.1 == name) = false := by
    rw [List.any_eq_false]
    intro m hm same
    exact fresh (beq_iff_eq.mp same ▸ List.mem_map_of_mem hm)
  simp [insert, absent]

namespace Reader

variable {d : Dialect} {stack : List Open} {e : Expected}

theorem run_append (r : Reader) (ls ls' : List Lexeme) :
    r.run d (ls ++ ls') = (r.run d ls).bind fun r => r.run d ls' := by
  induction ls generalizing r with
  | nil => rfl
  | cons l ls ih =>
      simp only [List.cons_append, run]
      cases r.step d l with
      | none => rfl
      | some next => exact ih next

/-- A reader that wants a value and has room for it takes in the lexemes of a value as the value. -/
def TakesIn (d : Dialect) (n : Nat) (j : Json) : Prop :=
  ∀ r : Reader, r.wantsValue = true → r.stack.length + n ≤ d.maxDepth →
    r.run d j.lexemes = r.complete j

/-- The items of a list are taken in one after the other. -/
theorem run_items {n : Nat} {items : List Json} (acc : List Json)
    (each : ∀ j ∈ items, TakesIn d n j) (nonempty : items ≠ [])
    (wants : e = .value ∨ e = .firstItem) (room : stack.length + 1 + n ≤ d.maxDepth) :
    run d ⟨.list acc :: stack, e, none⟩ ([.comma].intercalate (items.map lexemes)) =
      some ⟨.list (items.reverse ++ acc) :: stack, .separator, none⟩ := by
  induction items generalizing acc e with
  | nil => exact absurd rfl nonempty
  | cons j items ih =>
      obtain ⟨hj, hitems⟩ := List.forall_mem_cons.mp each
      have first : run d ⟨.list acc :: stack, e, none⟩ j.lexemes =
          some ⟨.list (j :: acc) :: stack, .separator, none⟩ :=
        hj _ (by rcases wants with rfl | rfl <;> rfl) room
      cases items with
      | nil => simpa using first
      | cons k items =>
          rw [List.map_cons, List.map_cons, List.intercalate_cons_cons, List.append_assoc,
            run_append, first]
          have rest := ih (j :: acc) hitems (by simp) (.inl rfl)
          simp only [List.map_cons] at rest
          simp [run, step, rest]

/-- The members of an object are taken in one after the other. -/
theorem run_members {n : Nat} {members : List (String × Json)} (acc : List (String × Json))
    (each : ∀ m ∈ members, TakesIn d n m.2) (distinct : ((acc ++ members).map Prod.fst).Nodup)
    (nonempty : members ≠ []) (wants : e = .name ∨ e = .firstName)
    (room : stack.length + 1 + n ≤ d.maxDepth) :
    run d ⟨.object acc none :: stack, e, none⟩
        ([.comma].intercalate (members.map fun m => .text m.1 :: .colon :: m.2.lexemes)) =
      some ⟨.object (acc ++ members) none :: stack, .separator, none⟩ := by
  induction members generalizing acc e with
  | nil => exact absurd rfl nonempty
  | cons m members ih =>
      obtain ⟨name, j⟩ := m
      obtain ⟨hj, hmembers⟩ := List.forall_mem_cons.mp each
      have fresh : name ∉ acc.map Prod.fst := by
        intro mem
        rw [List.map_append, List.nodup_append] at distinct
        exact distinct.2.2 name mem name (by simp) rfl
      have value : run d ⟨.object acc (some name) :: stack, .value, none⟩ j.lexemes =
          some ⟨.object (acc ++ [(name, j)]) none :: stack, .separator, none⟩ := by
        rw [hj ⟨.object acc (some name) :: stack, .value, none⟩ rfl room]
        simp [complete, insert_of_not_mem fresh]
      have first : run d ⟨.object acc none :: stack, e, none⟩ (.text name :: .colon :: j.lexemes) =
          some ⟨.object (acc ++ [(name, j)]) none :: stack, .separator, none⟩ := by
        rcases wants with rfl | rfl <;> exact value
      cases members with
      | nil => simpa using first
      | cons k members =>
          rw [List.map_cons, List.map_cons, List.intercalate_cons_cons, List.append_assoc,
            run_append, first]
          have rest := ih (acc ++ [(name, j)]) hmembers (by simpa using distinct) (by simp)
            (.inl rfl)
          simp only [List.map_cons, List.append_assoc, List.singleton_append] at rest
          exact rest

theorem start_eq {r : Reader} {o : Open} (wants : r.wantsValue = true)
    (room : r.stack.length < d.maxDepth) : r.start d o e = some ⟨o :: r.stack, e, none⟩ := by
  simp [start, wants, room]

/-- The value of a lexeme row is complete at its end. -/
theorem run_singleton (r : Reader) (l : Lexeme) : r.run d [l] = r.step d l := by
  rw [run]
  cases r.step d l <;> rfl

theorem takesIn {n : Nat} {j : Json} (h : Stable n j) : TakesIn d n j := by
  induction h with
  | null | bool | int =>
      intro r wants _
      simp only [lexemes, run_singleton, step, wants, if_true]
  | text s =>
      intro r wants _
      have noName : (r.expected == .name || r.expected == .firstName) = false := by
        simp only [wantsValue, Bool.or_eq_true, beq_iff_eq] at wants
        rcases wants with h | h <;> simp [h]
      simp [lexemes, run_singleton, step, wants, noName]
  | @list n items each ih =>
      intro r wants room
      rw [lexemes, lexemesAll_eq, run]
      simp only [step, start_eq wants (show r.stack.length < d.maxDepth by omega)]
      by_cases nonempty : items = []
      · subst nonempty
        simp [run_singleton, step, complete]
      · have room' : r.stack.length + 1 + n ≤ d.maxDepth := by omega
        have rest := run_items [] ih nonempty (.inr rfl) room'
        simp [run_append, rest, run_singleton, step, complete]
  | @object n members distinct each ih =>
      intro r wants room
      rw [lexemes, lexemesMembers_eq, run]
      simp only [step, start_eq wants (show r.stack.length < d.maxDepth by omega)]
      by_cases nonempty : members = []
      · subst nonempty
        simp [run_singleton, step, complete]
      · have room' : r.stack.length + 1 + n ≤ d.maxDepth := by omega
        have rest := run_members [] ih distinct nonempty (.inr rfl) room'
        simp [run_append, rest, run_singleton, step, complete]

end Reader

/-- The written text of a value is read as the value. -/
theorem read_write {j : Json} (h : Stable Dialect.strict.maxDepth j) :
    read .strict (String.ofList j.write) = some j := by
  have lexed := readsAs_write h [] (stops_nil _)
  have taken := Reader.takesIn h (d := .strict) {} rfl (by simp)
  have nothing : Lexeme.readAll .strict [] = some [] := by simp [Lexeme.readAll]
  simp only [List.append_nil, nothing, Option.map_some] at lexed
  simp [read, lexed, taken, Reader.complete]

end LogLayout.Json
