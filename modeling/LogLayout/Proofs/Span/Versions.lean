import LogLayout.Proofs.Span

/-!
# Versions of an arena

Pushing onto an arena leaves it as it is and gives a new version. Versions can branch: any of those
made so far may be pushed onto again, with any parent. Here are the properties that each version
has, whatever pushes led to it. Parents are older than their children, so that the walk from a frame
to its parent, and on to the parent of that one, comes to an end (`Acyclic`); and a push keeps what
is there, puts its frame in front of the chain of the parent, or is refused without any effect
(`Persistent`). `versions_acyclic_persistent` puts the two together with what becomes of the
versions themselves.
-/

namespace LogLayout.SpanArena

variable {a a' : SpanArena} {frames older : List Frame} {f : Frame} {n : Nat}
  {handle : Handle} {name : String} {args : FieldSource} {parent : Option Handle}

/-! ### Chains among frames -/

/-- The chain of the frame with a handle, or of no frame. -/
def chainFrom (frames : List Frame) : Option Handle → List Frame
  | none => []
  | some p => chainAmong frames p.number.toNat

/-- A newer frame does not change the chain of an older one. -/
theorem chainAmong_cons (newer : Frame) (h : n < older.length) :
    chainAmong (newer :: older) n = chainAmong older n := by
  rw [chainAmong, if_neg (by omega)]

theorem chainFrom_cons (newer : Frame)
    (h : ∀ p, parent = some p → 0 ≤ p.number ∧ p.number < older.length) :
    chainFrom (newer :: older) parent = chainFrom older parent := by
  cases parent with
  | none => rfl
  | some p =>
      have bounds := h p rfl
      exact chainAmong_cons newer (by omega)

/-- The chain of the newest frame is the frame and then the chain of its parent. -/
theorem chainAmong_newest (newest : Frame) :
    chainAmong (newest :: older) older.length = newest :: chainFrom older newest.parent := by
  rw [chainAmong, if_pos rfl]
  rfl

/-- A frame is the newest one, or it is found among the older ones. -/
theorem found_cons {g : Frame} (found : (g :: older).reverse[n]? = some f) :
    n < older.length ∧ older.reverse[n]? = some f ∨ n = older.length ∧ f = g := by
  rw [List.reverse_cons] at found
  rcases Nat.lt_or_ge n older.length with old | new
  · rw [List.getElem?_append_left (by simpa using old)] at found
    exact .inl ⟨old, found⟩
  · have bound := (List.getElem?_eq_some_iff.mp found).1
    simp only [List.length_append, List.length_reverse, List.length_singleton] at bound
    obtain rfl : n = older.length := by omega
    rw [List.getElem?_append_right (by simp)] at found
    exact .inr ⟨rfl, by simpa using found.symm⟩

/-- In the order of their handles, the parent of a frame comes before it. -/
theorem Rooted.parent_lt (rooted : Rooted frames) (found : frames.reverse[n]? = some f) :
    ∀ p, f.parent = some p → 0 ≤ p.number ∧ p.number < n := by
  induction frames with
  | nil => simp at found
  | cons g older ih =>
      obtain ⟨inside, rooted⟩ := rooted
      rcases found_cons found with ⟨-, found⟩ | ⟨rfl, rfl⟩
      · exact ih rooted found
      · exact inside

/-- The chain of a frame is the frame and then the chain of its parent. -/
theorem Rooted.chainAmong_eq (rooted : Rooted frames) (found : frames.reverse[n]? = some f) :
    chainAmong frames n = f :: chainFrom frames f.parent := by
  induction frames with
  | nil => simp at found
  | cons g older ih =>
      have lower := rooted.parent_lt found
      obtain ⟨inside, rooted⟩ := rooted
      rcases found_cons found with ⟨old, found⟩ | ⟨rfl, rfl⟩
      · have within : ∀ p, f.parent = some p → 0 ≤ p.number ∧ p.number < older.length := by
          intro p hp
          have bounds := lower p hp
          omega
        rw [chainAmong_cons g old, ih rooted found, chainFrom_cons g within]
      · rw [chainAmong_newest, chainFrom_cons f inside]

/-! ### Walks outwards -/

/-- A walk outwards: it visits the frame under a handle and goes on with the parent of that frame;
it is done where there is no parent. Each visit is listed with the number of its handle. -/
inductive Walk (a : SpanArena) : Option Handle → List (Int × Frame) → Prop
  | done : Walk a none []
  | visit {h : Handle} {f : Frame} {visits : List (Int × Frame)}
      (found : a.frame (some h) = .ok f) (on : Walk a f.parent visits) :
      Walk a (some h) ((h.number, f) :: visits)

/-- The handle above which a walk does not go. -/
def ceiling : Option Handle → Int
  | none => 0
  | some h => h.number + 1

theorem frame_eq_ok_iff (inside : a.contains handle = true) :
    a.frame (some handle) = .ok f ↔ a.frames[handle.number.toNat]? = some f := by
  have located : a.locate handle = .ok handle.number.toNat := by rw [locate, if_pos inside]
  simp only [frame, located, bind, Except.bind]
  split
  · next g found => simp [found]
  · next absent => simp [absent]

theorem exists_frame (inside : a.contains handle = true) : ∃ f, a.frame (some handle) = .ok f := by
  have bounds := contains_iff.mp inside
  have lower : handle.number.toNat < a.frames.length := by
    rw [frames, List.length_reverse, ← size]
    omega
  exact ⟨_, (frame_eq_ok_iff inside).mpr (List.getElem?_eq_getElem lower)⟩

/-- A step of a walk stays in the arena and goes down. -/
theorem Rooted.step (rooted : Rooted a.newestFirst) (inside : a.contains handle = true)
    (found : a.frame (some handle) = .ok f) :
    (∀ p, f.parent = some p → a.contains p = true) ∧ ceiling f.parent ≤ handle.number := by
  have bounds := contains_iff.mp inside
  have lower := rooted.parent_lt ((frame_eq_ok_iff inside).mp found)
  constructor
  · intro p hp
    have down := lower p hp
    exact contains_iff.mpr ⟨down.1, by omega⟩
  · cases hp : f.parent with
    | none => exact bounds.1
    | some p =>
        have down := lower p hp
        change p.number + 1 ≤ handle.number
        omega

theorem Rooted.exists_walk (rooted : Rooted a.newestFirst) (inside : a.contains handle = true) :
    ∃ visits, a.Walk (some handle) visits ∧
      visits.map Prod.snd = chainFrom a.newestFirst (some handle) := by
  -- The measure is the number of the handle, which goes down from step to step.
  induction hn : handle.number.toNat using Nat.strongRecOn generalizing handle with
  | ind n ih =>
      obtain ⟨f, found⟩ := exists_frame inside
      have chain : chainFrom a.newestFirst (some handle) = f :: chainFrom a.newestFirst f.parent :=
        rooted.chainAmong_eq ((frame_eq_ok_iff inside).mp found)
      obtain ⟨stays, down⟩ := rooted.step inside found
      cases hp : f.parent with
      | none =>
          refine ⟨[(handle.number, f)], .visit found (hp ▸ .done), ?_⟩
          rw [chain, hp]
          rfl
      | some p =>
          have bounds := contains_iff.mp (stays p hp)
          rw [hp, ceiling] at down
          obtain ⟨visits, walk, same⟩ := ih p.number.toNat (by omega) (stays p hp) rfl
          refine ⟨(handle.number, f) :: visits, .visit found (hp ▸ walk), ?_⟩
          rw [List.map_cons, same, chain, hp]

/-- The handles of a walk get smaller and smaller, so that there are not many of them. -/
theorem Walk.descends {start : Option Handle} {visits : List (Int × Frame)}
    (walk : a.Walk start visits) (rooted : Rooted a.newestFirst)
    (inside : ∀ h, start = some h → a.contains h = true) :
    (visits.map Prod.fst).Pairwise (fun earlier later => later < earlier) ∧
      (∀ v ∈ visits, v.1 < ceiling start) ∧ visits.length ≤ ceiling start := by
  induction walk with
  | done => exact ⟨.nil, by simp, Int.le_refl 0⟩
  | @visit h f visits found on ih =>
      obtain ⟨stays, down⟩ := rooted.step (inside h rfl) found
      obtain ⟨descending, below, few⟩ := ih stays
      refine ⟨List.pairwise_cons.mpr ⟨?_, descending⟩, List.forall_mem_cons.mpr ⟨?_, ?_⟩, ?_⟩
      · intro n mem
        obtain ⟨v, hv, rfl⟩ := List.mem_map.mp mem
        exact Int.lt_of_lt_of_le (below v hv) down
      · change h.number < h.number + 1
        omega
      · intro v hv
        change v.1 < h.number + 1
        have lower := below v hv
        omega
      · change ((visits.length + 1 : Nat) : Int) ≤ h.number + 1
        omega

/-- A walk ends at a frame without parent. -/
theorem Walk.last_parent {start : Option Handle} {visits : List (Int × Frame)}
    (walk : a.Walk start visits) : ∀ v, visits.getLast? = some v → v.2.parent = none := by
  induction walk with
  | done => simp
  | @visit h f visits found on ih =>
      intro v last
      cases visits with
      | nil =>
          obtain rfl : (h.number, f) = v := by simpa using last
          cases hp : f.parent with
          | none => rfl
          | some p =>
              rw [hp] at on
              cases on
      | cons next visits => exact ih v (by rwa [List.getLast?_cons_cons] at last)

/-- Walks outwards in an arena come to an end, and chains are what they visit. -/
structure Acyclic (a : SpanArena) : Prop where
  parent_lt : ∀ (n : Nat) (f : Frame) (p : Handle), a.frames[n]? = some f → f.parent = some p →
    0 ≤ p.number ∧ p.number < n
  walk : ∀ h, a.contains h = true → ∃ visits, a.Walk (some h) visits ∧
    a.chain (some h) = .ok (visits.map Prod.snd) ∧
    (visits.map Prod.fst).Pairwise (fun earlier later => later < earlier) ∧
    visits.length ≤ h.number + 1 ∧
    ∃ last, visits.getLast? = some last ∧ last.2.parent = none

theorem Rooted.acyclic (rooted : Rooted a.newestFirst) : a.Acyclic where
  parent_lt n f p found hp := rooted.parent_lt found p hp
  walk h inside := by
    obtain ⟨visits, walk, same⟩ := rooted.exists_walk inside
    have start : ∀ h', some h = some h' → a.contains h' = true := by
      rintro h' ⟨⟩
      exact inside
    obtain ⟨descending, -, few⟩ := walk.descends rooted start
    refine ⟨visits, walk, ?_, descending, few, ?_⟩
    · rw [chain_eq inside, same]
      rfl
    · cases walk with
      | visit found on =>
          exact ⟨_, List.getLast?_eq_some_getLast (by simp),
            (Walk.visit found on).last_parent _ (List.getLast?_eq_some_getLast (by simp))⟩

/-! ### Pushing -/

/-- A push onto an arena keeps what is there, or is refused. -/
structure Persistent (a : SpanArena) : Prop where
  /-- A push succeeds when the parent is in the arena and the arguments can be captured. -/
  succeeds_iff : ∀ name args parent, (∃ pushed, a.push name args parent = .ok pushed) ↔
    (∀ p, parent = some p → a.contains p = true) ∧ ∃ captured, Field.ofSource args = .ok captured
  /-- It gives the next handle and puts one frame behind those there are. The chains of the old
  handles stay the same; that of the new one is the new frame and then the chain of its parent. -/
  extends_chain : ∀ name args parent a' handle, a.push name args parent = .ok (a', handle) →
    handle = .index a.size ∧ ∃ captured, Field.ofSource args = .ok captured ∧
      a'.frames = a.frames ++ [⟨name, captured, parent⟩] ∧
      (∀ old, a.contains old = true → a'.chain (some old) = a.chain (some old)) ∧
      a'.chain (some handle) = (a.chain parent).map fun outer => ⟨name, captured, parent⟩ :: outer
  /-- A parent outside the arena is an unacceptable value. -/
  refuses : ∀ name args p, a.contains p = false →
    ∃ fault, a.push name args (some p) = .error fault ∧ fault.faultClass = .value

/-- A handle outside the arena is an unacceptable value, even if it cannot be shown. -/
theorem check_of_outside (outside : a.contains handle = false) (refusal : String → SpanFault)
    (unacceptable : ∀ shown, (refusal shown).faultClass = .value) :
    ∃ fault, a.check (some handle) refusal = .error fault ∧ fault.faultClass = .value := by
  simp only [check, outside]
  cases handle.shown with
  | ok shown => exact ⟨_, rfl, unacceptable shown⟩
  | error cause => exact ⟨_, rfl, rfl⟩

theorem contains_cons (newer : Frame) (inside : a.contains handle = true) :
    (⟨newer :: a.newestFirst⟩ : SpanArena).contains handle = true := by
  have bounds := contains_iff.mp inside
  rw [contains_iff, size, List.length_cons]
  rw [size] at bounds
  omega

theorem chain_eq_chainFrom (inside : ∀ p, parent = some p → a.contains p = true) :
    a.chain parent = .ok (chainFrom a.newestFirst parent) := by
  cases parent with
  | none => rfl
  | some p => exact chain_eq (inside p rfl)

theorem persistent (a : SpanArena) : a.Persistent where
  succeeds_iff name args parent := by
    simp only [Prod.exists, push_eq_ok_iff]
    constructor
    · rintro ⟨a', handle, inside, captured, hcaptured, -⟩
      exact ⟨inside, captured, hcaptured⟩
    · rintro ⟨inside, captured, hcaptured⟩
      exact ⟨_, _, inside, captured, hcaptured, rfl⟩
  extends_chain name args parent a' handle h := by
    obtain ⟨inside, captured, hcaptured, made⟩ := push_eq_ok_iff.mp h
    obtain ⟨rfl, rfl⟩ := Prod.mk.inj made
    refine ⟨rfl, captured, hcaptured, ?_, ?_, ?_⟩
    · simp [frames]
    · intro old hold
      have still : (⟨⟨name, captured, parent⟩ :: a.newestFirst⟩ : SpanArena).contains old = true :=
        contains_cons _ hold
      have bounds := contains_iff.mp hold
      rw [chain_eq hold, chain_eq still, chainAmong_cons _ (by rw [← size]; omega)]
    · have newest : (⟨⟨name, captured, parent⟩ :: a.newestFirst⟩ : SpanArena).contains
          (.index a.size) = true := by
        rw [contains_iff]
        exact ⟨Int.natCast_nonneg a.size, Int.lt_succ a.size⟩
      rw [chain_eq newest, chain_eq_chainFrom inside]
      change Except.ok (chainAmong _ a.newestFirst.length) = _
      rw [chainAmong_newest]
      rfl
  refuses name args p outside := by
    obtain ⟨fault, refused, unacceptable⟩ := check_of_outside outside .parentOutside fun _ => rfl
    refine ⟨fault, ?_, unacceptable⟩
    rw [push, refused]
    rfl

/-! ### Versions -/

/-- A push onto one of several versions. -/
structure Push where
  version : Nat
  name : String
  args : FieldSource := .datum .null
  parent : Option Handle := none

/-- The versions after a push onto one of them: if it succeeds, its arena is a further one. -/
def afterPush (versions : List SpanArena) (c : Push) : List SpanArena :=
  match versions[c.version]? with
  | none => versions
  | some a =>
    match a.push c.name c.args c.parent with
    | .ok (a', _) => versions ++ [a']
    | .error _ => versions

/-- The versions that pushes make, one after the other, out of the empty arena. -/
def versions (pushes : List Push) : List SpanArena := pushes.foldl afterPush [.empty]

section Versions

variable {existing : List SpanArena} {c : Push}

theorem versions_concat (pushes : List Push) :
    versions (pushes ++ [c]) = afterPush (versions pushes) c := by
  simp [versions]

theorem afterPush_of_ok (onto : existing[c.version]? = some a)
    (h : a.push c.name c.args c.parent = .ok (a', handle)) :
    afterPush existing c = existing ++ [a'] := by
  simp only [afterPush, onto, h]

theorem afterPush_of_error {fault : SpanFault} (onto : existing[c.version]? = some a)
    (h : a.push c.name c.args c.parent = .error fault) : afterPush existing c = existing := by
  simp only [afterPush, onto, h]

/-- A push makes no version but that of the arena which it succeeds with. -/
theorem pushed_afterPush {fit : FieldSource → Prop} (fits : fit c.args)
    (h : ∀ a ∈ existing, Pushed fit a) : ∀ a ∈ afterPush existing c, Pushed fit a := by
  cases onto : existing[c.version]? with
  | none => simpa only [afterPush, onto] using h
  | some a =>
      cases hpush : a.push c.name c.args c.parent with
      | error fault => rwa [afterPush_of_error onto hpush]
      | ok pushed =>
          rw [afterPush_of_ok onto hpush, List.forall_mem_append, List.forall_mem_singleton]
          exact ⟨h, (h a (List.mem_of_getElem? onto)).push fits hpush⟩

theorem pushed_of_mem_versions (pushes : List Push) :
    ∀ a ∈ versions pushes, Pushed (fun _ => True) a := by
  rw [versions]
  have start : ∀ a ∈ [SpanArena.empty], Pushed (fun _ => True) a :=
    List.forall_mem_singleton.mpr .empty
  generalize [SpanArena.empty] = existing at start
  induction pushes generalizing existing with
  | nil => exact start
  | cons c pushes ih => exact ih _ (pushed_afterPush trivial start)

end Versions

/-- In every version walks outwards end, and a push keeps it as it is. A push that succeeds makes
one more version; one with a parent outside its version is refused and makes none. -/
theorem versions_acyclic_persistent (pushes : List Push) :
    (∀ a ∈ versions pushes, a.Acyclic ∧ a.Persistent) ∧
      ∀ c a, (versions pushes)[c.version]? = some a →
        (∀ a' handle, a.push c.name c.args c.parent = .ok (a', handle) →
          versions (pushes ++ [c]) = versions pushes ++ [a']) ∧
        ∀ p, c.parent = some p → a.contains p = false →
          versions (pushes ++ [c]) = versions pushes := by
  constructor
  · intro a mem
    exact ⟨(pushed_of_mem_versions pushes a mem).rooted.acyclic, a.persistent⟩
  · intro c a onto
    rw [versions_concat]
    constructor
    · intro a' handle h
      exact afterPush_of_ok onto h
    · intro p hp outside
      obtain ⟨fault, refused, -⟩ := a.persistent.refuses c.name c.args p outside
      exact afterPush_of_error onto (hp ▸ refused)

end LogLayout.SpanArena
