import OrbitKV.Lib.Machine

/-!
# Processes over a shared memory

A process performs atomic accesses and ends with a value or an error or asks to be started again.
`exec` runs it alone; the steps of a `System` interleave calls in any way.
-/

namespace OrbitKV

/-- A process with the accesses `A`, whose answers have the types `R`. -/
inductive Process (A : Type) (R : A → Type) (ε α : Type) where
  | done (value : α)
  | fail (error : ε)
  | again
  | act (access : A) (next : R access → Process A R ε α)

namespace Process

variable {A : Type} {R : A → Type} {ε α β σ : Type}
  {P : A → Prop} {process : Process A R ε α}

/-- One process after another; an error or a new start leaves out the second. -/
def bind (process : Process A R ε α) (rest : α → Process A R ε β) : Process A R ε β :=
  match process with
  | .done value => rest value
  | .fail error => .fail error
  | .again => .again
  | .act access next => .act access fun answer => (next answer).bind rest

instance : Monad (Process A R ε) where
  pure := .done
  bind := bind

@[simp] theorem pure_eq (value : α) : (pure value : Process A R ε α) = .done value := rfl

@[simp] theorem done_bind (value : α) (rest : α → Process A R ε β) :
    (Process.done value : Process A R ε α) >>= rest = rest value := rfl

@[simp] theorem map_eq (f : α → β) (process : Process A R ε α) :
    f <$> process = process >>= fun value => .done (f value) := rfl

theorem bind_assoc {γ : Type} (process : Process A R ε α) (rest : α → Process A R ε β)
    (last : β → Process A R ε γ) :
    process >>= rest >>= last = process >>= fun value => rest value >>= last := by
  induction process with
  | done value => rfl
  | fail error => rfl
  | again => rfl
  | act access next ih => exact congrArg (Process.act access) (funext ih)

theorem bind_done (process : Process A R ε α) : process >>= Process.done = process := by
  induction process with
  | done value => rfl
  | fail error => rfl
  | again => rfl
  | act access next ih => exact congrArg (Process.act access) (funext ih)

/-- Every access of the process satisfies `P`, whatever the answers are. -/
def All (P : A → Prop) : Process A R ε α → Prop
  | .done _ | .fail _ | .again => True
  | .act access next => P access ∧ ∀ answer, (next answer).All P

theorem All.bind {rest : α → Process A R ε β}
    (hfirst : process.All P) (hrest : ∀ value, (rest value).All P) : (process >>= rest).All P := by
  induction process with
  | done value => exact hrest value
  | fail error => trivial
  | again => trivial
  | act access next ih => exact ⟨hfirst.1, fun answer => ih answer (hfirst.2 answer)⟩

theorem All.of_bind {rest : α → Process A R ε β}
    (hall : (process >>= rest).All P) : process.All P := by
  induction process with
  | done value => trivial
  | fail error => trivial
  | again => trivial
  | act access next ih => exact ⟨hall.1, fun answer => ih answer (hall.2 answer)⟩

theorem All.mono {Q : A → Prop} (hall : process.All P)
    (hPQ : ∀ access, P access → Q access) : process.All Q := by
  induction process with
  | done value => trivial
  | fail error => trivial
  | again => trivial
  | act access next ih => exact ⟨hPQ access hall.1, fun answer => ih answer (hall.2 answer)⟩

/-- The process with its errors as values; `restart` replaces a new start. -/
def caught {δ : Type} (process : Process A R ε α) (restart : Process A R δ (Except ε α)) :
    Process A R δ (Except ε α) :=
  match process with
  | .done value => .done (.ok value)
  | .fail error => .done (.error error)
  | .again => restart
  | .act access next => .act access fun answer => (next answer).caught restart

/-- At most so many starts of a process inside another one; after the last it is `stuck`. -/
def attempt {δ : Type} (stuck : δ) (process : Process A R ε α) :
    Nat → Process A R δ (Except ε α)
  | 0 => .fail stuck
  | attempts + 1 => process.caught (attempt stuck process attempts)

section Alone

variable (memory : (access : A) → σ → R access × σ)

/-- The process runs alone: its outcome, none if it asks for a new start, and the memory then. -/
def exec : Process A R ε α → σ → Option (Except ε α) × σ
  | .done value, s => (some (.ok value), s)
  | .fail error, s => (some (.error error), s)
  | .again, s => (none, s)
  | .act access next, s => exec (next (memory access s).1) (memory access s).2

def follow (rest : α → Process A R ε β) :
    Option (Except ε α) × σ → Option (Except ε β) × σ
  | (some (.ok value), s) => exec memory (rest value) s
  | (some (.error error), s) => (some (.error error), s)
  | (none, s) => (none, s)

theorem exec_bind (process : Process A R ε α) (rest : α → Process A R ε β) (s : σ) :
    exec memory (process >>= rest) s = follow memory rest (exec memory process s) := by
  induction process generalizing s with
  | done value => rfl
  | fail error => rfl
  | again => rfl
  | act access next ih => exact ih _ _

theorem exec_relates {Related : σ → σ → Prop} (hrefl : ∀ s, Related s s)
    (htrans : ∀ s t u, Related s t → Related t u → Related s u) {P : A → Prop}
    (haccess : ∀ access s, P access → Related s (memory access s).2) {process : Process A R ε α}
    (hall : process.All P) (s : σ) : Related s (exec memory process s).2 := by
  induction process generalizing s with
  | done value => exact hrefl s
  | fail error => exact hrefl s
  | again => exact hrefl s
  | act access next ih =>
    exact htrans s _ _ (haccess access s hall.1) (ih _ (hall.2 _) _)

end Alone

end Process

/-! ### Calls that run at the same time -/

/-- A call that was started: what is left of its process, or what it has returned. -/
inductive Progress (A : Type) (R : A → Type) (ε α : Type) where
  | running (process : Process A R ε α)
  | replied (outcome : Except ε α)

structure Thread (A : Type) (R : A → Type) (ε α κ : Type) where
  call : κ
  progress : Progress A R ε α

structure System (σ A : Type) (R : A → Type) (ε α κ : Type) where
  memory : σ
  threads : List (Thread A R ε α κ)

inductive SystemStep (κ : Type) where
  | start (call : κ)
  | advance (thread : Nat)

theorem getElem?_set_cases {α : Type} {l : List α} {i j : Nat} {a b : α}
    (hget : (l.set i a)[j]? = some b) : i = j ∧ a = b ∨ i ≠ j ∧ l[j]? = some b := by
  by_cases hij : i = j
  · subst hij
    rw [List.getElem?_set_self'] at hget
    obtain ⟨_, -, rfl⟩ := Option.map_eq_some_iff.mp hget
    exact .inl ⟨rfl, rfl⟩
  · rw [List.getElem?_set_ne hij] at hget
    exact .inr ⟨hij, hget⟩

namespace System

variable {σ A : Type} {R : A → Type} {ε α κ : Type}

def replies (s : System σ A R ε α κ) : List (κ × Except ε α) :=
  s.threads.filterMap fun thread =>
    match thread.progress with
    | .running _ => none
    | .replied outcome => some (thread.call, outcome)

section Steps

variable (body : κ → Process A R ε α) (memory : (access : A) → σ → R access × σ)
  (mayStart : System σ A R ε α κ → κ → Bool)

/-- A running process goes on by one access, or returns, or starts again. -/
def advanced (call : κ) (m : σ) : Process A R ε α → Progress A R ε α × σ
  | .done value => (.replied (.ok value), m)
  | .fail error => (.replied (.error error), m)
  | .again => (.running (body call), m)
  | .act access next => (.running (next (memory access m).1), (memory access m).2)

def next (s : System σ A R ε α κ) : SystemStep κ → Option (System σ A R ε α κ)
  | .start call =>
    if mayStart s call then
      some { s with threads := s.threads ++ [⟨call, .running (body call)⟩] }
    else
      none
  | .advance thread =>
    match s.threads[thread]? with
    | some ⟨call, .running process⟩ =>
      let (progress, m) := advanced body memory call s.memory process
      some ⟨m, s.threads.set thread ⟨call, progress⟩⟩
    | _ => none

variable {body memory mayStart} {s t : System σ A R ε α κ}

theorem next_start {call : κ} (hnext : s.next body memory mayStart (.start call) = some t) :
    mayStart s call = true ∧
      t = { s with threads := s.threads ++ [⟨call, .running (body call)⟩] } := by
  rw [next] at hnext
  split at hnext
  case isTrue hmay => exact ⟨hmay, (Option.some.inj hnext).symm⟩
  case isFalse => cases hnext

theorem next_advance {i : Nat} (hnext : s.next body memory mayStart (.advance i) = some t) :
    ∃ call process, s.threads[i]? = some ⟨call, .running process⟩ ∧
      t = ⟨(advanced body memory call s.memory process).2,
        s.threads.set i ⟨call, (advanced body memory call s.memory process).1⟩⟩ := by
  rw [next] at hnext
  cases hthread : s.threads[i]? with
  | none =>
    rw [hthread] at hnext
    cases hnext
  | some thread =>
    obtain ⟨call, progress⟩ := thread
    rw [hthread] at hnext
    cases progress with
    | running process => exact ⟨call, process, rfl, (Option.some.inj hnext).symm⟩
    | replied outcome => cases hnext

/-- Every access that is still to come satisfies what the accesses of its call do. -/
def AllRunning (P : κ → A → Prop) (s : System σ A R ε α κ) : Prop :=
  ∀ (i : Nat) call process, s.threads[i]? = some ⟨call, .running process⟩ → process.All (P call)

theorem AllRunning.next {P : κ → A → Prop} (hs : s.AllRunning P)
    (hbody : ∀ call, (body call).All (P call)) {step : SystemStep κ}
    (hnext : s.next body memory mayStart step = some t) : t.AllRunning P := by
  cases step with
  | start call =>
    obtain ⟨-, rfl⟩ := next_start hnext
    intro j other process hthread
    rcases List.mem_append.mp (List.mem_of_getElem? hthread) with hold | hnew
    · obtain ⟨k, hk⟩ := List.getElem?_of_mem hold
      exact hs k other process hk
    · obtain ⟨rfl, hprogress⟩ := Thread.mk.inj (List.mem_singleton.mp hnew)
      cases hprogress
      exact hbody _
  | advance i =>
    obtain ⟨call, process, hthread, rfl⟩ := next_advance hnext
    have hall := hs i call process hthread
    intro j other rest hother
    by_cases hij : i = j
    · subst hij
      rw [List.getElem?_set_self'] at hother
      obtain ⟨_, -, hnew⟩ := Option.map_eq_some_iff.mp hother
      cases process with
      | done value => cases hnew
      | fail error => cases hnew
      | again =>
        cases hnew
        exact hbody call
      | act access next =>
        cases hnew
        exact hall.2 _
    · rw [List.getElem?_set_ne hij] at hother
      exact hs j other rest hother

end Steps

end System

end OrbitKV
