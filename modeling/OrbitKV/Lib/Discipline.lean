import Mathlib
import OrbitKV.Lib.Process

/-!
# Disciplines of shared memory

Which accesses a process may perform with the capabilities it holds, and which it gains or gives up.
`Keeps` is what a process shows of itself under interference, `Disciplined` what follows of a
system.
-/

namespace OrbitKV

open Relation Function

variable {σ A Cap : Type} {R : A → Type} {ε α κ : Type}

/-- Which accesses are permitted, and what they do to the capabilities. -/
structure Discipline (memory : (access : A) → σ → R access × σ) (Cap : Type) where
  /-- What holds of the memory at all times. -/
  Valid : σ → Prop
  /-- What holds of the memory while somebody has the capability. -/
  Backed : Cap → σ → Prop
  Permitted : Set Cap → A → σ → Prop
  after : Set Cap → (access : A) → R access → Set Cap
  valid : ∀ {held access s}, Valid s → Permitted held access s → Valid (memory access s).2
  /-- A capability is gained only while nobody can have it. -/
  fresh : ∀ {held access s cap}, Valid s → Permitted held access s →
    cap ∈ after held access (memory access s).1 → cap ∈ held ∨ ¬Backed cap s
  backed : ∀ {held access s cap}, Valid s → Permitted held access s →
    (∀ cap ∈ held, Backed cap s) → cap ∈ after held access (memory access s).1 →
    Backed cap (memory access s).2
  frame : ∀ {held access s cap}, Valid s → Permitted held access s → cap ∉ held → Backed cap s →
    Backed cap (memory access s).2

namespace Discipline

variable {memory : (access : A) → σ → R access × σ} (D : Discipline memory Cap)
  {P : σ → Prop} {process : Process A R ε α} {β : Type} {permitted : A → Prop}

def Interferes (held : Set Cap) (s t : σ) : Prop :=
  ∃ others access, Disjoint held others ∧ D.Valid s ∧ D.Permitted others access s ∧
    t = (memory access s).2

def Later (held : Set Cap) (s t : σ) : Prop :=
  ReflTransGen (D.Interferes held) s t ∧ D.Valid t ∧ ∀ cap ∈ held, D.Backed cap t

/-- Whatever the others do, every access of the process is permitted, its outcome satisfies `Q`, and
`I` holds when it asks for a new start. -/
def Keeps (Q : Set Cap → Except ε α → σ → Prop) (I : Set Cap → σ → Prop) :
    Process A R ε α → Set Cap → σ → Prop
  | .done value, held, s => ∀ t, D.Later held s t → Q held (.ok value) t
  | .fail error, held, s => ∀ t, D.Later held s t → Q held (.error error) t
  | .again, held, s => ∀ t, D.Later held s t → I held t
  | .act access next, held, s => ∀ t, D.Later held s t → D.Permitted held access t ∧
      Keeps Q I (next (memory access t).1) (D.after held access (memory access t).1)
        (memory access t).2

variable {D} {Q Q' : Set Cap → Except ε α → σ → Prop} {I I' : Set Cap → σ → Prop}
  {held : Set Cap} {s t u : σ}

theorem Later.trans (hfirst : ReflTransGen (D.Interferes held) s t) (hlast : D.Later held t u) :
    D.Later held s u :=
  ⟨hfirst.trans hlast.1, hlast.2⟩

theorem Later.stable (hlater : D.Later held s t)
    (hstable : ∀ {s t}, D.Interferes held s t → P s → P t) (hs : P s) : P t := by
  obtain ⟨hsteps, -⟩ := hlater
  induction hsteps with
  | refl => exact hs
  | tail _ hstep ih => exact hstable hstep ih

theorem Keeps.later (hkeeps : D.Keeps Q I process held s)
    (hsteps : ReflTransGen (D.Interferes held) s t) : D.Keeps Q I process held t := by
  cases process with
  | done value => exact fun u hu => hkeeps u (hu.trans hsteps)
  | fail error => exact fun u hu => hkeeps u (hu.trans hsteps)
  | again => exact fun u hu => hkeeps u (hu.trans hsteps)
  | act access next => exact fun u hu => hkeeps u (hu.trans hsteps)

theorem Keeps.mono (hkeeps : D.Keeps Q I process held s)
    (hQ : ∀ held outcome t, Q held outcome t → Q' held outcome t)
    (hI : ∀ held t, I held t → I' held t) : D.Keeps Q' I' process held s := by
  induction process generalizing held s with
  | done value => exact fun t ht => hQ _ _ _ (hkeeps t ht)
  | fail error => exact fun t ht => hQ _ _ _ (hkeeps t ht)
  | again => exact fun t ht => hI _ _ (hkeeps t ht)
  | act access next ih =>
    intro t ht
    obtain ⟨hpermitted, hrest⟩ := hkeeps t ht
    exact ⟨hpermitted, ih _ hrest⟩

def Fits (held : Set Cap) (s : σ) : Prop :=
  D.Valid s ∧ ∀ cap ∈ held, D.Backed cap s

theorem Later.fits (hlater : D.Later held s t) : D.Fits held t := hlater.2

theorem Fits.later (hs : D.Fits held s) : D.Later held s s := ⟨.refl, hs⟩

theorem Fits.act (hs : D.Fits held s) {access : A} (hpermitted : D.Permitted held access s) :
    D.Fits (D.after held access (memory access s).1) (memory access s).2 :=
  ⟨D.valid hs.1 hpermitted, fun _ => D.backed hs.1 hpermitted hs.2⟩

def Stable (D : Discipline memory Cap) (held : Set Cap) (P : σ → Prop) : Prop :=
  ∀ s t, D.Interferes held s t → P s → P t

theorem stable_true : D.Stable held fun _ => True := fun _ _ _ _ => trivial

theorem Keeps.act {access : A} {next : R access → Process A R ε α}
    (hstable : D.Stable held P) (hs : P s)
    (hstep : ∀ t, D.Fits held t → P t → D.Permitted held access t ∧
      D.Keeps Q I (next (memory access t).1) (D.after held access (memory access t).1)
        (memory access t).2) : D.Keeps Q I (.act access next) held s :=
  fun t ht => hstep t ht.fits (ht.stable (hstable _ _) hs)

def Then {β : Type} (Q : Set Cap → Except ε β → σ → Prop) (I : Set Cap → σ → Prop)
    (rest : α → Process A R ε β) (held : Set Cap) : Except ε α → σ → Prop
  | .ok value, s => D.Keeps Q I (rest value) held s
  | .error error, s => Q held (.error error) s

theorem Keeps.bind {Q : Set Cap → Except ε β → σ → Prop} {rest : α → Process A R ε β}
    (hs : D.Fits held s) (hkeeps : D.Keeps (D.Then Q I rest) I process held s) :
    D.Keeps Q I (process >>= rest) held s := by
  induction process generalizing held s with
  | done value => exact hkeeps s hs.later
  | fail error => exact hkeeps
  | again => exact hkeeps
  | act access next ih =>
    intro t ht
    obtain ⟨hpermitted, hrest⟩ := hkeeps t ht
    exact ⟨hpermitted, ih _ (ht.fits.act hpermitted) hrest⟩

theorem Keeps.map {Q : Set Cap → Except ε β → σ → Prop} {f : α → β} (hs : D.Fits held s)
    (hkeeps : D.Keeps (fun held outcome t => Q held (outcome.map f) t) I process held s)
    (hstable : ∀ held outcome {t u}, D.Interferes held t u → Q held outcome t → Q held outcome u) :
    D.Keeps Q I (f <$> process) held s := by
  rw [Process.map_eq]
  apply Keeps.bind hs
  apply hkeeps.mono
  · intro held outcome t houtcome
    cases outcome with
    | ok value => exact fun u hu => hu.stable (hstable held _) houtcome
    | error error => exact houtcome
  · exact fun held t ht => ht

section Everywhere

variable {permitted : A → Prop} {P : σ → Prop}
  (hpermitted : ∀ held access s, permitted access → D.Permitted held access s)

include hpermitted in
theorem Keeps.of_all {process : Process A R ε α} (hall : process.All permitted)
    (hkept : ∀ access s, P s → P (memory access s).2) (hs : P s) :
    D.Keeps (fun _ (_ : Except ε α) t => P t) (fun _ t => P t) process held s := by
  have hlater : ∀ {held s t}, D.Later held s t → P s → P t := by
    intro held s t hlater hs
    refine hlater.stable (fun hstep hs => ?_) hs
    obtain ⟨others, access, -, -, -, rfl⟩ := hstep
    exact hkept access _ hs
  induction process generalizing held s with
  | done value => exact fun t ht => hlater ht hs
  | fail error => exact fun t ht => hlater ht hs
  | again => exact fun t ht => hlater ht hs
  | act access next ih =>
    intro t ht
    refine ⟨hpermitted _ access t hall.1, ih _ (hall.2 _) ?_⟩
    exact hkept access t (hlater ht hs)

include hpermitted in
theorem Keeps.bind_of_all {β : Type} {Q : Set Cap → Except ε β → σ → Prop}
    {process : Process A R ε α} {rest : α → Process A R ε β} (hs : D.Fits held s)
    (hall : process.All permitted)
    (hrest : ∀ value held t, D.Fits held t → D.Keeps Q I (rest value) held t)
    (herror : ∀ error held t, Q held (.error error) t) (hagain : ∀ held t, I held t) :
    D.Keeps Q I (process >>= rest) held s := by
  induction process generalizing held s with
  | done value => exact hrest value held s hs
  | fail error => exact fun t ht => herror error held t
  | again => exact fun t ht => hagain held t
  | act access next ih =>
    intro t ht
    have haccess := hpermitted held access t hall.1
    exact ⟨haccess, ih _ (ht.fits.act haccess) (hall.2 _)⟩

end Everywhere

theorem Keeps.of_static (hall : process.All permitted)
    (hpermitted : ∀ access s, D.Valid s → permitted access → D.Permitted held access s)
    (hafter : ∀ access answer, permitted access → D.after held access answer = held)
    (hQ : ∀ outcome t, Q held outcome t) (hI : ∀ t, I held t) : D.Keeps Q I process held s := by
  induction process generalizing s with
  | done value => exact fun t _ => hQ _ t
  | fail error => exact fun t _ => hQ _ t
  | again => exact fun t _ => hI t
  | act access next ih =>
    intro t ht
    refine ⟨hpermitted access t ht.fits.1 hall.1, ?_⟩
    rw [hafter access _ hall.1]
    exact ih _ (hall.2 _)

theorem Keeps.bind_static {Q : Set Cap → Except ε β → σ → Prop} {rest : α → Process A R ε β}
    (hs : D.Fits held s) (hall : process.All permitted)
    (hpermitted : ∀ access s, D.Valid s → permitted access → D.Permitted held access s)
    (hafter : ∀ access answer, permitted access → D.after held access answer = held)
    (hrest : ∀ value t, D.Fits held t → D.Keeps Q I (rest value) held t)
    (herror : ∀ error t, Q held (.error error) t) (hI : ∀ t, I held t) :
    D.Keeps Q I (process >>= rest) held s := by
  induction process generalizing s with
  | done value => exact hrest value s hs
  | fail error => exact fun t _ => herror error t
  | again => exact fun t _ => hI t
  | act access next ih =>
    intro t ht
    have haccess := hpermitted access t ht.fits.1 hall.1
    have hfits := ht.fits.act haccess
    refine ⟨haccess, ?_⟩
    rw [hafter access _ hall.1] at hfits ⊢
    exact ih _ hfits (hall.2 _)

theorem Keeps.along
    (hall : process.All permitted)
    (hpermitted : ∀ access t, permitted access → D.Fits held t → P t → D.Permitted held access t)
    (hafter : ∀ access answer, permitted access → D.after held access answer = held)
    (hstable : D.Stable held P)
    (hkept : ∀ access t, permitted access → D.Fits held t → P t → P (memory access t).2)
    (hs : P s) :
    D.Keeps (fun own (_ : Except ε α) t => own = held ∧ D.Fits held t ∧ P t)
      (fun own t => own = held ∧ D.Fits held t ∧ P t) process held s := by
  have hend : ∀ t, D.Later held s t → held = held ∧ D.Fits held t ∧ P t := fun t ht =>
    ⟨rfl, ht.fits, ht.stable (hstable _ _) hs⟩
  induction process generalizing s with
  | done value => exact hend
  | fail error => exact hend
  | again => exact hend
  | act access next ih =>
    intro t ht
    obtain ⟨-, hfits, hP⟩ := hend t ht
    refine ⟨hpermitted access t hall.1 hfits hP, ?_⟩
    rw [hafter access _ hall.1]
    have hnext := hkept access t hall.1 hfits hP
    exact ih _ (hall.2 _) hnext fun u hu => ⟨rfl, hu.fits, hu.stable (hstable _ _) hnext⟩

theorem Keeps.caught {δ : Type} {Q : Set Cap → Except δ (Except ε α) → σ → Prop}
    {J : Set Cap → σ → Prop} {restart : Process A R δ (Except ε α)} (hs : D.Fits held s)
    (hkeeps : D.Keeps (fun held outcome t => Q held (.ok outcome) t) I process held s)
    (hrestart : ∀ held t, D.Fits held t → I held t → D.Keeps Q J restart held t) :
    D.Keeps Q J (process.caught restart) held s := by
  induction process generalizing held s with
  | done value => exact hkeeps
  | fail error => exact hkeeps
  | again => exact hrestart held s hs (hkeeps s hs.later)
  | act access next ih =>
    intro t ht
    obtain ⟨hpermitted, hrest⟩ := hkeeps t ht
    exact ⟨hpermitted, ih _ (ht.fits.act hpermitted) hrest⟩

theorem Keeps.attempt {δ : Type} {Q : Set Cap → Except δ (Except ε α) → σ → Prop}
    {J : Set Cap → σ → Prop} {stuck : δ} (hs : D.Fits held s)
    (hI : I held s)
    (hbody : ∀ held t, D.Fits held t → I held t →
      D.Keeps (fun held outcome t => Q held (.ok outcome) t) I process held t)
    (hstuck : ∀ held t, Q held (.error stuck) t) (attempts : Nat) :
    D.Keeps Q J (process.attempt stuck attempts) held s := by
  induction attempts generalizing held s with
  | zero => exact fun t _ => hstuck held t
  | succ attempts ih => exact (hbody held s hs hI).caught hs fun held t ht hI => ih ht hI

end Discipline

/-! ### Systems of disciplined processes -/

section System

variable {memory : (access : A) → σ → R access × σ} (D : Discipline memory Cap)
  (body : κ → Process A R ε α) (mayStart : System σ A R ε α κ → κ → Bool)
  (Q : κ → Set Cap → Except ε α → σ → Prop) (I : κ → Set Cap → σ → Prop)

def Thread.Keeps (thread : Thread A R ε α κ) (held : Set Cap) (s : σ) : Prop :=
  match thread.progress with
  | .running process => D.Keeps (Q thread.call) (I thread.call) process held s
  | .replied outcome => ∀ t, D.Later held s t → Q thread.call held outcome t

structure Disciplined (s : System σ A R ε α κ) (held : Nat → Set Cap) : Prop where
  valid : D.Valid s.memory
  exclusive : ∀ i j, i ≠ j → Disjoint (held i) (held j)
  backed : ∀ i, ∀ cap ∈ held i, D.Backed cap s.memory
  keeps : ∀ (i : Nat) (thread : Thread A R ε α κ), s.threads[i]? = some thread →
    thread.Keeps D Q I (held i) s.memory

variable {D Q I body mayStart} {s t : System σ A R ε α κ} {held : Nat → Set Cap}

theorem Disciplined.fits (hs : Disciplined D Q I s held) (i : Nat) : D.Fits (held i) s.memory :=
  ⟨hs.valid, hs.backed i⟩

theorem Thread.Keeps.later {thread : Thread A R ε α κ} {own : Set Cap} {m m' : σ}
    (hkeeps : thread.Keeps D Q I own m)
    (hsteps : ReflTransGen (D.Interferes own) m m') : thread.Keeps D Q I own m' := by
  obtain ⟨call, progress⟩ := thread
  cases progress with
  | running process => exact Discipline.Keeps.later hkeeps hsteps
  | replied outcome => exact fun t ht => hkeeps t (ht.trans hsteps)

section

variable (hs : Disciplined D Q I s held)
  {i : Nat} {call : κ}

include hs

theorem Disciplined.replied
    {outcome : Except ε α} (hthread : s.threads[i]? = some ⟨call, .replied outcome⟩) :
    Q call (held i) outcome s.memory :=
  hs.keeps i _ hthread s.memory (hs.fits i).later

theorem Disciplined.proceed {thread : Thread A R ε α κ}
    (hkeeps : thread.Keeps D Q I (held i) s.memory) :
    Disciplined D Q I ⟨s.memory, s.threads.set i thread⟩ held := by
  refine ⟨hs.valid, hs.exclusive, hs.backed, fun j other hother => ?_⟩
  by_cases hij : i = j
  · subst hij
    rw [List.getElem?_set_self'] at hother
    obtain ⟨old, -, rfl⟩ := Option.map_eq_some_iff.mp hother
    exact hkeeps
  · rw [List.getElem?_set_ne hij] at hother
    exact hs.keeps j other hother

theorem Disciplined.act {thread : Thread A R ε α κ}
    {access : A} (hpermitted : D.Permitted (held i) access s.memory)
    (hkeeps : thread.Keeps D Q I (D.after (held i) access (memory access s.memory).1)
      (memory access s.memory).2) :
    Disciplined D Q I ⟨(memory access s.memory).2, s.threads.set i thread⟩
      (update held i (D.after (held i) access (memory access s.memory).1)) := by
  have hdisjoint : ∀ j, i ≠ j →
      Disjoint (D.after (held i) access (memory access s.memory).1) (held j) := by
    intro j hij
    rw [Set.disjoint_left]
    intro cap hgained hother
    rcases D.fresh hs.valid hpermitted hgained with hown | hunbacked
    · exact Set.disjoint_left.mp (hs.exclusive i j hij) hown hother
    · exact hunbacked (hs.backed j cap hother)
  refine ⟨D.valid hs.valid hpermitted, fun j k hjk => ?_, fun j cap hcap => ?_,
    fun j other hother => ?_⟩
  · by_cases hj : j = i
    · rw [hj, update_self, update_of_ne (hj ▸ hjk).symm]
      exact hdisjoint k (hj ▸ hjk)
    · rw [update_of_ne hj]
      by_cases hk : k = i
      · rw [hk, update_self]
        exact (hdisjoint j (Ne.symm hj)).symm
      · rw [update_of_ne hk]
        exact hs.exclusive j k hjk
  · by_cases hj : j = i
    · rw [hj, update_self] at hcap
      exact D.backed hs.valid hpermitted (hs.backed i) hcap
    · rw [update_of_ne hj] at hcap
      refine D.frame hs.valid hpermitted (fun hown => ?_) (hs.backed j cap hcap)
      exact Set.disjoint_left.mp (hs.exclusive i j (Ne.symm hj)) hown hcap
  · by_cases hj : j = i
    · subst hj
      rw [List.getElem?_set_self'] at hother
      obtain ⟨old, -, rfl⟩ := Option.map_eq_some_iff.mp hother
      rw [update_self]
      exact hkeeps
    · rw [List.getElem?_set_ne (Ne.symm hj)] at hother
      rw [update_of_ne hj]
      apply (hs.keeps j other hother).later
      exact .single ⟨held i, access, hs.exclusive j i hj, hs.valid, hpermitted, rfl⟩

theorem Disciplined.reply {outcome : Except ε α} {kept : Set Cap} (hkept : kept ⊆ held i)
    (hreply : ∀ t, D.Later kept s.memory t → Q call kept outcome t) :
    Disciplined D Q I ⟨s.memory, s.threads.set i ⟨call, .replied outcome⟩⟩
      (update held i kept) := by
  have hsub : ∀ j, update held i kept j ⊆ held j := by
    intro j
    by_cases hj : j = i
    · rw [hj, update_self]
      exact hkept
    · rw [update_of_ne hj]
  refine ⟨hs.valid, fun j k hjk => ?_, fun j cap hcap => hs.backed j cap (hsub j hcap),
    fun j other hother => ?_⟩
  · exact (hs.exclusive j k hjk).mono (hsub j) (hsub k)
  · by_cases hj : j = i
    · subst hj
      rw [List.getElem?_set_self'] at hother
      obtain ⟨old, -, rfl⟩ := Option.map_eq_some_iff.mp hother
      rw [update_self]
      exact hreply
    · rw [List.getElem?_set_ne (Ne.symm hj)] at hother
      rw [update_of_ne hj]
      exact hs.keeps j other hother

/-- **One step of a thread.** A process that asks for a new start must be able to keep to the
discipline from there. -/
theorem Disciplined.advance
    (hbody : ∀ call own m, D.Fits own m → I call own m →
      D.Keeps (Q call) (I call) (body call) own m)
    (hnext : s.next body memory mayStart (.advance i) = some t) :
    ∃ held', Disciplined D Q I t held' := by
  obtain ⟨call, process, hthread, rfl⟩ := System.next_advance hnext
  have hkeeps := hs.keeps i _ hthread
  cases process with
  | done value => exact ⟨held, hs.proceed hkeeps⟩
  | fail error => exact ⟨held, hs.proceed hkeeps⟩
  | again =>
    have hagain := hbody call (held i) s.memory (hs.fits i) (hkeeps _ (hs.fits i).later)
    exact ⟨held, hs.proceed hagain⟩
  | act access next =>
    obtain ⟨hpermitted, hrest⟩ := hkeeps _ (hs.fits i).later
    exact ⟨_, hs.act hpermitted hrest⟩

theorem Disciplined.start {own : Set Cap}
    (hfits : D.Fits own s.memory) (hfree : ∀ i, i ≠ s.threads.length → Disjoint own (held i))
    (hkeeps : D.Keeps (Q call) (I call) (body call) own s.memory) :
    Disciplined D Q I { s with threads := s.threads ++ [⟨call, .running (body call)⟩] }
      (update held s.threads.length own) := by
  refine ⟨hs.valid, fun j k hjk => ?_, fun j cap hcap => ?_, fun j thread hthread => ?_⟩
  · by_cases hj : j = s.threads.length
    · rw [hj, update_self, update_of_ne (hj ▸ hjk).symm]
      exact hfree k (hj ▸ hjk).symm
    · rw [update_of_ne hj]
      by_cases hk : k = s.threads.length
      · rw [hk, update_self]
        exact (hfree j hj).symm
      · rw [update_of_ne hk]
        exact hs.exclusive j k hjk
  · by_cases hj : j = s.threads.length
    · rw [hj, update_self] at hcap
      exact hfits.2 cap hcap
    · rw [update_of_ne hj] at hcap
      exact hs.backed j cap hcap
  · by_cases hj : j = s.threads.length
    · subst hj
      rw [List.getElem?_concat_length, Option.some.injEq] at hthread
      rw [update_self, ← hthread]
      exact hkeeps
    · have hlt : j < s.threads.length := by
        have := (List.getElem?_eq_some_iff.mp hthread).1
        rw [List.length_append, List.length_singleton] at this
        omega
      rw [List.getElem?_append_left hlt] at hthread
      rw [update_of_ne hj]
      exact hs.keeps j thread hthread

end

end System

end OrbitKV
