import Klingon.Pattern.Search

/-!
# The search finds the preferred way

A search forgets how it came to a place: it only knows which places were visited. Here the ways are
followed without that memory, each on its own. `Explores` says what following a thread comes to when
no fork is passed twice on one way at one position. The search agrees with it: a place that was
visited before, and is not on the present way, has led nowhere, and will again.
-/

namespace Klingon.Pattern

variable {α : Type}

/-- What following a thread comes to, if anything. The path holds the forks that were passed on the
way to the thread; a fork on the path is a dead end. -/
inductive Explores (code : Array (Instruction α)) (consume : α → Nat → Option Nat) :
    List (Nat × Nat) → Thread → Option Thread → Prop where
  | accept {path t} (hcode : code[t.address]? = some .accept) :
      Explores code consume path t (some t)
  | stuck {path t a} (hcode : code[t.address]? = some (.consume a))
      (hnone : consume a t.position = none) : Explores code consume path t none
  | consume {path t a position result} (hcode : code[t.address]? = some (.consume a))
      (hsome : consume a t.position = some position)
      (next : Explores code consume path { t with address := t.address + 1, position } result) :
      Explores code consume path t result
  | jump {path t target result} (hcode : code[t.address]? = some (.jump target))
      (next : Explores code consume path { t with address := target } result) :
      Explores code consume path t result
  | save {path t slot result} (hcode : code[t.address]? = some (.save slot))
      (next : Explores code consume path
        { t with address := t.address + 1, saved := (slot, t.position) :: t.saved } result) :
      Explores code consume path t result
  | revisit {path t preferred other} (hcode : code[t.address]? = some (.fork preferred other))
      (hpath : (t.address, t.position) ∈ path) : Explores code consume path t none
  | fork {path t preferred other first second}
      (hcode : code[t.address]? = some (.fork preferred other))
      (hpath : (t.address, t.position) ∉ path)
      (left : Explores code consume ((t.address, t.position) :: path)
        { t with address := preferred } first)
      (right : Explores code consume ((t.address, t.position) :: path)
        { t with address := other } second) :
      Explores code consume path t (first.or second)

namespace Search

/-- A thread that waits on the stack, with its path and what following it comes to. -/
structure Task where
  path : List (Nat × Nat)
  thread : Thread
  result : Option Thread

/-- The place of a task: an address and a position. -/
def Task.place (task : Task) : Nat × Nat :=
  (task.thread.address, task.thread.position)

variable {code : Array (Instruction α)} {consume : α → Nat → Option Nat} {length : Nat}

/-- Whether a place is marked as visited. -/
def Visited (code : Array (Instruction α)) (visited : Array Bool) (place : Nat × Nat) : Prop :=
  visited[place.2 * code.size + place.1]? = some true

/-- The places after one instruction that is no fork. -/
def Leads (consume : α → Nat → Option Nat) (place next : Nat × Nat) : Instruction α → Prop
  | .consume a => next.1 = place.1 + 1 ∧ consume a place.2 = some next.2
  | .jump target => next = (target, place.2)
  | .save _ => next = (place.1 + 1, place.2)
  | .fork _ _ => False
  | .accept => False

/-- What holds between the visited places and the tasks on the stack. Every way on from a visited
place leads to a visited place or to a task. A fork may have a task anywhere on the stack, whose
path it is on; any other instruction has been followed at once. -/
structure Consistent (code : Array (Instruction α)) (consume : α → Nat → Option Nat)
    (length : Nat) (visited : Array Bool) (stack : List Task) : Prop where
  size : visited.size = (length + 1) * code.size
  within : ∀ task ∈ stack, task.thread.position ≤ length
  explored : ∀ task ∈ stack, Explores code consume task.path task.thread task.result
  nested : stack.Pairwise fun task later => later.path ⊆ task.path
  seen : ∀ task ∈ stack, ∀ place ∈ task.path, Visited code visited place
  pending : ∀ place, Visited code visited place → code[place.1]? ≠ some .accept
  forks : ∀ place preferred other, Visited code visited place →
    code[place.1]? = some (.fork preferred other) →
    ∀ target, target = preferred ∨ target = other → Visited code visited (target, place.2) ∨
      ∃ task ∈ stack, task.place = (target, place.2) ∧ place ∈ task.path
  steps : ∀ place next i, Visited code visited place → code[place.1]? = some i →
    Leads consume place next i →
    Visited code visited next ∨ ∃ task, stack.head? = some task ∧ task.place = next

theorem address_lt_of_getElem? {i : Instruction α} {address : Nat}
    (h : code[address]? = some i) : address < code.size :=
  (Array.getElem?_eq_some_iff.mp h).1

theorem address_lt {t : Thread} {path : List (Nat × Nat)} {result : Option Thread}
    (h : Explores code consume path t result) : t.address < code.size := by
  cases h <;> exact address_lt_of_getElem? (by assumption)

theorem result_of_accept {t : Thread} {path : List (Nat × Nat)} {result : Option Thread}
    (hcode : code[t.address]? = some .accept) (h : Explores code consume path t result) :
    result = some t := by
  cases h with
  | accept => rfl
  | _ => simp_all

/-- Places have different numbers. -/
theorem number_inj {size a b p q : Nat} (ha : a < size) (hb : b < size)
    (h : p * size + a = q * size + b) : p = q ∧ a = b := by
  have hpos : 0 < size := by omega
  have hdiv := congrArg (· / size) h
  have hmod := congrArg (· % size) h
  simp only [Nat.mul_comm _ size, Nat.mul_add_div hpos, Nat.mul_add_mod, Nat.div_eq_of_lt ha,
    Nat.div_eq_of_lt hb, Nat.mod_eq_of_lt ha, Nat.mod_eq_of_lt hb, Nat.add_zero] at hdiv hmod
  exact ⟨hdiv, hmod⟩

/-- Marking one place marks no other. -/
theorem visited_set {visited : Array Bool} {place new : Nat × Nat} (ha : place.1 < code.size)
    (hb : new.1 < code.size) (hlt : new.2 * code.size + new.1 < visited.size) :
    Visited code (visited.set (new.2 * code.size + new.1) true hlt) place ↔
      place = new ∨ Visited code visited place := by
  unfold Visited
  rw [Array.getElem?_set]
  split
  · rename_i heq
    obtain ⟨hp, hq⟩ := number_inj hb ha heq
    have : place = new := Prod.ext hq.symm hp.symm
    simp [this]
  · rename_i hne
    have : place ≠ new := fun h => hne (by rw [h])
    simp [this]

theorem visited_mono {visited : Array Bool} {place : Nat × Nat} {n : Nat} (hlt : n < visited.size)
    (h : Visited code visited place) : Visited code (visited.set n true hlt) place := by
  unfold Visited at h ⊢
  rw [Array.getElem?_set]
  split
  · rfl
  · exact h

theorem visited_self {visited : Array Bool} {place : Nat × Nat}
    (hlt : place.2 * code.size + place.1 < visited.size) :
    Visited code (visited.set (place.2 * code.size + place.1) true hlt) place := by
  unfold Visited
  rw [Array.getElem?_set, if_pos rfl]

theorem number_lt (place : Nat × Nat) (ha : place.1 < code.size) (hp : place.2 ≤ length) :
    place.2 * code.size + place.1 < (length + 1) * code.size := by
  have h := Nat.mul_le_mul_right code.size hp
  rw [Nat.succ_mul]
  omega

variable {visited : Array Bool} {task : Task} {rest : List Task}

/-- A place on the path of a later task is on the path of the first one. -/
theorem Consistent.path_subset (h : Consistent code consume length visited (task :: rest))
    {later : Task} (hmem : later ∈ task :: rest) : later.path ⊆ task.path := by
  rcases List.mem_cons.mp hmem with rfl | hrest
  · exact fun _ hp => hp
  · exact (List.pairwise_cons.mp h.nested).1 later hrest

/-- What starts at a visited place comes to nothing while the first task is at a visited place: each
way on is visited too, or its task waits below a fork that is on the path. -/
theorem Consistent.eq_none_of_visited (h : Consistent code consume length visited (task :: rest))
    (htop : Visited code visited task.place) {path : List (Nat × Nat)} {t : Thread}
    {result : Option Thread} (hexp : Explores code consume path t result)
    (hsub : task.path ⊆ path) (hvis : Visited code visited (t.address, t.position)) :
    result = none := by
  have hstep : ∀ {place next i}, Visited code visited place → code[place.1]? = some i →
      Leads consume place next i → Visited code visited next := by
    intro place next i hp hi hl
    rcases h.steps place next i hp hi hl with hv | ⟨first, hfirst, hplace⟩
    · exact hv
    · cases hfirst
      rwa [hplace] at htop
  induction hexp with
  | accept hcode => exact absurd hcode (h.pending _ hvis)
  | stuck => rfl
  | consume hcode hsome _ ih => exact ih hsub (hstep hvis hcode ⟨rfl, hsome⟩)
  | jump hcode _ ih => exact ih hsub (hstep hvis hcode rfl)
  | save hcode _ ih => exact ih hsub (hstep hvis hcode rfl)
  | revisit => rfl
  | @fork path t preferred other _ _ hcode hpath _ _ ihl ihr =>
    have hway : ∀ target, target = preferred ∨ target = other →
        Visited code visited (target, t.position) := by
      intro target htarget
      rcases h.forks _ _ _ hvis hcode target htarget with hv | ⟨later, hmem, _, hin⟩
      · exact hv
      · exact absurd (hsub (h.path_subset hmem hin)) hpath
    have hsub' : task.path ⊆ (t.address, t.position) :: path :=
      fun _ hp => List.mem_cons_of_mem _ (hsub hp)
    rw [ihl hsub' (hway _ (.inl rfl)), ihr hsub' (hway _ (.inr rfl))]
    rfl

/-- A task at a visited place can be dropped. -/
theorem Consistent.pop (h : Consistent code consume length visited (task :: rest))
    (htop : Visited code visited task.place) : Consistent code consume length visited rest where
  size := h.size
  within t ht := h.within t (List.mem_cons_of_mem _ ht)
  explored t ht := h.explored t (List.mem_cons_of_mem _ ht)
  nested := (List.pairwise_cons.mp h.nested).2
  seen t ht := h.seen t (List.mem_cons_of_mem _ ht)
  pending := h.pending
  forks place preferred other hv hcode target htarget := by
    rcases h.forks place preferred other hv hcode target htarget with hv' | ⟨t, ht, hplace, hin⟩
    · exact .inl hv'
    · rcases List.mem_cons.mp ht with rfl | hrest
      · exact .inl (hplace ▸ htop)
      · exact .inr ⟨t, hrest, hplace, hin⟩
  steps place next i hv hcode hl := by
    rcases h.steps place next i hv hcode hl with hv' | ⟨t, ht, hplace⟩
    · exact .inl hv'
    · cases ht
      exact .inl (hplace ▸ htop)

/-- Following the first task one instruction further. The new tasks stand for all ways on from its
place, which is visited now. -/
theorem Consistent.push (h : Consistent code consume length visited (task :: rest))
    {i : Instruction α} (hcode : code[task.place.1]? = some i) (haccept : i ≠ .accept)
    (hlt : task.place.2 * code.size + task.place.1 < visited.size) (new : List Task)
    (hwithin : ∀ t ∈ new, t.thread.position ≤ length)
    (hexplored : ∀ t ∈ new, Explores code consume t.path t.thread t.result)
    (hpath : ∀ t ∈ new, t.path = task.path ∨ t.path = task.place :: task.path)
    (hnested : new.Pairwise fun t later => later.path ⊆ t.path)
    (hforks : ∀ preferred other, i = .fork preferred other → ∀ target,
      target = preferred ∨ target = other →
      ∃ t ∈ new, t.place = (target, task.place.2) ∧ task.place ∈ t.path)
    (hsteps : ∀ next, Leads consume task.place next i →
      ∃ t, new.head? = some t ∧ t.place = next) :
    Consistent code consume length
      (visited.set (task.place.2 * code.size + task.place.1) true hlt) (new ++ rest) where
  size := by rw [Array.size_set, h.size]
  within t ht := by
    rcases List.mem_append.mp ht with ht | ht
    · exact hwithin t ht
    · exact h.within t (List.mem_cons_of_mem _ ht)
  explored t ht := by
    rcases List.mem_append.mp ht with ht | ht
    · exact hexplored t ht
    · exact h.explored t (List.mem_cons_of_mem _ ht)
  nested := by
    refine List.pairwise_append.mpr ⟨hnested, (List.pairwise_cons.mp h.nested).2, ?_⟩
    intro t ht later hlater place hp
    have hin := (List.pairwise_cons.mp h.nested).1 later hlater hp
    rcases hpath t ht with heq | heq <;> rw [heq]
    · exact hin
    · exact List.mem_cons_of_mem _ hin
  seen t ht place hp := by
    have hsize := address_lt_of_getElem? hcode
    have hold : place ∈ task.path → Visited code (visited.set _ true hlt) place := by
      intro hin
      have hv := h.seen task List.mem_cons_self place hin
      exact visited_mono hlt hv
    rcases List.mem_append.mp ht with ht | ht
    · rcases hpath t ht with heq | heq <;> rw [heq] at hp
      · exact hold hp
      · rcases List.mem_cons.mp hp with rfl | hin
        · exact visited_self hlt
        · exact hold hin
    · exact hold (h.path_subset (List.mem_cons_of_mem _ ht) hp)
  pending place hv hacc := by
    rcases (visited_set (address_lt_of_getElem? hacc) (address_lt_of_getElem? hcode) hlt).mp hv
      with rfl | hv
    · rw [hacc] at hcode
      exact haccept (Option.some.inj hcode).symm
    · exact h.pending place hv hacc
  forks place preferred other hv hfork target htarget := by
    rcases (visited_set (address_lt_of_getElem? hfork) (address_lt_of_getElem? hcode) hlt).mp hv
      with rfl | hv
    · rw [hfork] at hcode
      obtain ⟨t, ht, hplace⟩ := hforks preferred other (Option.some.inj hcode).symm target htarget
      exact .inr ⟨t, List.mem_append_left _ ht, hplace⟩
    · rcases h.forks place preferred other hv hfork target htarget with hv' | ⟨t, ht, hplace, hin⟩
      · exact .inl (visited_mono hlt hv')
      · rcases List.mem_cons.mp ht with rfl | hrest
        · exact .inl (hplace ▸ visited_self hlt)
        · exact .inr ⟨t, List.mem_append_right _ hrest, hplace, hin⟩
  steps place next j hv hj hl := by
    rcases (visited_set (address_lt_of_getElem? hj) (address_lt_of_getElem? hcode) hlt).mp hv
      with rfl | hv
    · rw [hj] at hcode
      cases hcode
      obtain ⟨t, ht, hplace⟩ := hsteps next hl
      exact .inr ⟨t, by rw [List.head?_append, ht, Option.some_or], hplace⟩
    · rcases h.steps place next j hv hj hl with hv' | ⟨t, ht, hplace⟩
      · exact .inl (visited_mono hlt hv')
      · cases ht
        exact .inl (hplace ▸ visited_self hlt)

/-- What the tasks on a stack come to: the first one that comes to something decides. -/
def outcome (stack : List Task) : Option Thread :=
  stack.findSome? (·.result)

theorem outcome_append (new rest : List Task) :
    outcome (new ++ rest) = (outcome new).or (outcome rest) :=
  List.findSome?_append

theorem outcome_cons (task : Task) (rest : List Task) :
    outcome (task :: rest) = task.result.or (outcome rest) := by
  cases hresult : task.result <;> simp [outcome, hresult]

/-- An instruction that is no fork leaves one task on the same path, or none. -/
theorem Consistent.follow_step (h : Consistent code consume length visited (task :: rest))
    {i : Instruction α} (hcode : code[task.place.1]? = some i) (haccept : i ≠ .accept)
    (hfork : ∀ preferred other, i ≠ .fork preferred other)
    (hlt : task.place.2 * code.size + task.place.1 < visited.size) (next : Option Thread)
    (hadvance : advance consume task.thread i = next.toList)
    (hnext : ∀ t, next = some t → t.position ≤ length ∧ Explores code consume task.path t task.result)
    (hleads : ∀ place, Leads consume task.place place i →
      ∃ t, next = some t ∧ (t.address, t.position) = place)
    (hnone : next = none → task.result = none) :
    ∃ new : List Task, new.map (·.thread) = advance consume task.thread i ∧
      outcome new = task.result ∧ Consistent code consume length
        (visited.set (task.place.2 * code.size + task.place.1) true hlt) (new ++ rest) := by
  refine ⟨next.toList.map fun t => ⟨task.path, t, task.result⟩, ?_, ?_, ?_⟩
  · rw [hadvance, List.map_map]
    exact List.map_id _
  · cases next with
    | none => rw [hnone rfl]; rfl
    | some t => simp [outcome]
  · refine h.push hcode haccept hlt _ ?_ ?_ ?_ ?_ ?_ ?_
    · intro t ht
      obtain ⟨u, hu, rfl⟩ := List.mem_map.mp ht
      exact (hnext u (Option.mem_toList.mp hu)).1
    · intro t ht
      obtain ⟨u, hu, rfl⟩ := List.mem_map.mp ht
      exact (hnext u (Option.mem_toList.mp hu)).2
    · intro t ht
      obtain ⟨u, _, rfl⟩ := List.mem_map.mp ht
      exact .inl rfl
    · cases next <;> simp
    · intro preferred other hi
      exact absurd hi (hfork preferred other)
    · intro place hl
      obtain ⟨t, rfl, hplace⟩ := hleads place hl
      exact ⟨_, rfl, hplace⟩

/-- A fork that is not on the path leaves two tasks, the preferred one first. -/
theorem Consistent.follow_fork (h : Consistent code consume length visited (task :: rest))
    {preferred other : Nat} (hcode : code[task.place.1]? = some (.fork preferred other))
    (hlt : task.place.2 * code.size + task.place.1 < visited.size) {first second : Option Thread}
    (hleft : Explores code consume (task.place :: task.path)
      { task.thread with address := preferred } first)
    (hright : Explores code consume (task.place :: task.path)
      { task.thread with address := other } second) :
    Consistent code consume length
      (visited.set (task.place.2 * code.size + task.place.1) true hlt)
      (⟨task.place :: task.path, { task.thread with address := preferred }, first⟩ ::
        ⟨task.place :: task.path, { task.thread with address := other }, second⟩ :: rest) := by
  have hwithin := h.within task List.mem_cons_self
  refine h.push hcode (by simp) hlt [_, _] ?_ ?_ ?_ ?_ ?_ ?_
  · intro t ht
    simp only [List.mem_cons, List.not_mem_nil, or_false] at ht
    rcases ht with rfl | rfl <;> exact hwithin
  · intro t ht
    simp only [List.mem_cons, List.not_mem_nil, or_false] at ht
    rcases ht with rfl | rfl
    · exact hleft
    · exact hright
  · intro t ht
    simp only [List.mem_cons, List.not_mem_nil, or_false] at ht
    rcases ht with rfl | rfl <;> exact .inr rfl
  · simp
  · intro x y hi target htarget
    cases hi
    rcases htarget with rfl | rfl
    · exact ⟨_, List.mem_cons_self, rfl, List.mem_cons_self⟩
    · exact ⟨_, List.mem_cons_of_mem _ List.mem_cons_self, rfl, List.mem_cons_self⟩
  · intro next hl
    exact hl.elim

/-- The first task is replaced by the tasks after its instruction, which come to the same. -/
theorem Consistent.follow (h : Consistent code consume length visited (task :: rest))
    (hlength : ∀ a p q, consume a p = some q → q ≤ length) {i : Instruction α}
    (hcode : code[task.place.1]? = some i) (haccept : i ≠ .accept)
    (hlt : task.place.2 * code.size + task.place.1 < visited.size)
    (hnew : ¬ Visited code visited task.place) :
    ∃ new : List Task, new.map (·.thread) = advance consume task.thread i ∧
      outcome new = task.result ∧ Consistent code consume length
        (visited.set (task.place.2 * code.size + task.place.1) true hlt) (new ++ rest) := by
  have hwithin := h.within task List.mem_cons_self
  have hexp := h.explored task List.mem_cons_self
  have hseen := h.seen task List.mem_cons_self
  obtain ⟨path, thread, result⟩ := task
  dsimp only at hexp hseen hwithin
  cases hexp with
  | accept hi =>
    cases hi.symm.trans hcode
    exact absurd rfl haccept
  | stuck hi hnone =>
    cases hi.symm.trans hcode
    refine h.follow_step hcode haccept (by simp) hlt none ?_ (by simp) ?_ fun _ => rfl
    · simp [advance, hnone]
    · intro place hl
      cases hnone.symm.trans hl.2
  | consume hi hsome next =>
    rename_i a position
    cases hi.symm.trans hcode
    refine h.follow_step hcode haccept (by simp) hlt
      (some ⟨thread.address + 1, position, thread.saved⟩) ?_ ?_ ?_ (by simp)
    · simp [advance, hsome]
    · rintro t ⟨⟩
      exact ⟨hlength _ _ _ hsome, next⟩
    · intro place hl
      exact ⟨_, rfl, Prod.ext hl.1.symm (Option.some.inj (hsome.symm.trans hl.2))⟩
  | jump hi next =>
    cases hi.symm.trans hcode
    refine h.follow_step hcode haccept (by simp) hlt (some _) rfl ?_ ?_ (by simp)
    · rintro t ⟨⟩
      exact ⟨hwithin, next⟩
    · intro place hl
      exact ⟨_, rfl, hl.symm⟩
  | save hi next =>
    cases hi.symm.trans hcode
    refine h.follow_step hcode haccept (by simp) hlt (some _) rfl ?_ ?_ (by simp)
    · rintro t ⟨⟩
      exact ⟨hwithin, next⟩
    · intro place hl
      exact ⟨_, rfl, hl.symm⟩
  | revisit hi hpath => exact absurd (hseen _ hpath) hnew
  | fork hi hpath left right =>
    cases hi.symm.trans hcode
    refine ⟨[_, _], ?_, ?_, h.follow_fork hcode hlt left right⟩
    · rfl
    · rw [outcome_cons, outcome_cons]
      exact congrArg _ Option.or_none

/-- The search comes to what following the tasks one by one comes to. -/
theorem search_eq_outcome (hlength : ∀ a p q, consume a p = some q → q ≤ length)
    {stack : List Task} (h : Consistent code consume length visited stack) :
    search code consume visited (stack.map (·.thread)) = outcome stack := by
  generalize hthreads : stack.map (·.thread) = threads
  fun_induction search code consume visited threads generalizing stack with
  | case1 =>
    cases List.map_eq_nil_iff.mp hthreads
    rfl
  | case2 visited thread threads number hlt hvisited =>
    rename_i ih
    obtain ⟨task, rest, rfl, rfl, rfl⟩ := List.map_eq_cons_iff.mp hthreads
    have hv : Visited code visited task.place := by
      exact (Array.getElem?_eq_getElem hlt).trans (congrArg some hvisited)
    have hnone := h.eq_none_of_visited hv (h.explored task List.mem_cons_self) (fun _ hp => hp) hv
    rw [outcome_cons, hnone, Option.none_or]
    exact ih (h.pop hv) rfl
  | case3 visited thread threads number hlt hvisited hnone =>
    rename_i ih
    obtain ⟨task, rest, rfl, rfl, rfl⟩ := List.map_eq_cons_iff.mp hthreads
    have haddress := address_lt (h.explored task List.mem_cons_self)
    rw [Array.getElem?_eq_getElem haddress] at hnone
    cases hnone
  | case4 visited thread threads number hlt hvisited =>
    rename_i haccept
    obtain ⟨task, rest, rfl, rfl, rfl⟩ := List.map_eq_cons_iff.mp hthreads
    have hexp := h.explored task List.mem_cons_self
    rw [outcome_cons, result_of_accept haccept hexp, Option.some_or]
  | case5 visited thread threads number hlt hvisited i haccept hcode =>
    rename_i ih
    obtain ⟨task, rest, rfl, rfl, rfl⟩ := List.map_eq_cons_iff.mp hthreads
    have hnew : ¬ Visited code visited task.place := by
      intro hv
      exact hvisited (Option.some.inj ((Array.getElem?_eq_getElem hlt).symm.trans hv))
    obtain ⟨new, hmap, hout, hcons⟩ := h.follow hlength hcode haccept hlt hnew
    rw [outcome_cons, ← hout, ← outcome_append]
    exact ih hcons (by rw [List.map_append, hmap])
  | case6 visited thread threads number hlt =>
    rename_i ih
    obtain ⟨task, rest, rfl, rfl, rfl⟩ := List.map_eq_cons_iff.mp hthreads
    refine absurd ?_ hlt
    rw [h.size]
    exact number_lt task.place (address_lt (h.explored task List.mem_cons_self))
      (h.within task List.mem_cons_self)

end Search

/-- The leftmost match is what the first start comes to that comes to something. -/
theorem leftmost?_eq {code : Array (Instruction α)} {consume : α → Nat → Option Nat} {length : Nat}
    (hlength : ∀ a p q, consume a p = some q → q ≤ length) (result : Nat → Option Thread)
    (h : ∀ start ≤ length, Explores code consume [] ⟨0, start, [(0, start)]⟩ (result start)) :
    leftmost? code consume length = (List.range (length + 1)).findSome? result := by
  let task (start : Nat) : Search.Task := ⟨[], ⟨0, start, [(0, start)]⟩, result start⟩
  have hnone : ∀ place, ¬ Search.Visited code
      (Array.replicate ((length + 1) * code.size) false) place := by
    intro place hv
    rw [Search.Visited, Array.getElem?_replicate] at hv
    split at hv <;> cases hv
  have hstart : ∀ t ∈ (List.range (length + 1)).map task, ∃ start ≤ length, t = task start := by
    intro t ht
    obtain ⟨start, hmem, rfl⟩ := List.mem_map.mp ht
    exact ⟨start, Nat.le_of_lt_succ (List.mem_range.mp hmem), rfl⟩
  have hcons : Search.Consistent code consume length
      (Array.replicate ((length + 1) * code.size) false) ((List.range (length + 1)).map task) := by
    refine ⟨Array.size_replicate, ?_, ?_, ?_, ?_, ?_, ?_, ?_⟩
    · intro t ht
      obtain ⟨start, hle, rfl⟩ := hstart t ht
      exact hle
    · intro t ht
      obtain ⟨start, hle, rfl⟩ := hstart t ht
      exact h start hle
    · exact List.pairwise_map.mpr (List.pairwise_of_forall fun _ _ _ hp => hp)
    · intro t ht place hp
      obtain ⟨start, _, rfl⟩ := hstart t ht
      cases hp
    · intro place hv
      exact absurd hv (hnone place)
    · intro place _ _ hv
      exact absurd hv (hnone place)
    · intro place _ _ hv
      exact absurd hv (hnone place)
  have hsearch := Search.search_eq_outcome hlength hcons
  rw [List.map_map, Search.outcome, List.findSome?_map] at hsearch
  exact hsearch

end Klingon.Pattern
