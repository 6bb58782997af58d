import Mathlib.Logic.Relation

/-!
# Labelled machines

Initial states and a labelled step relation. A run records the labels of its steps; the rules below
are the only inductions over runs.
-/

namespace OrbitKV

universe u v

structure Machine (σ : Type u) (ι : Type v) where
  init : σ → Prop
  step : σ → ι → σ → Prop

namespace Machine

variable {σ : Type u} {ι : Type v} (M : Machine σ ι)

/-- `M.Run s ls t`: the labels `ls`, in order, lead from `s` to `t`. -/
inductive Run : σ → List ι → σ → Prop
  | nil (s : σ) : Run s [] s
  | snoc {s t u : σ} {ls : List ι} {l : ι} :
      Run s ls t → M.step t l u → Run s (ls ++ [l]) u

def Reachable (t : σ) : Prop :=
  ∃ s ls, M.init s ∧ M.Run s ls t

/-- The machine of a partial function: a label leads to at most one state. -/
def ofNext (init : σ → Prop) (next : σ → ι → Option σ) : Machine σ ι where
  init := init
  step s l t := next s l = some t

def restrict (ok : σ → σ → Prop) : Machine σ ι where
  init := M.init
  step s l t := M.step s l t ∧ ok s t

variable {M}

theorem Run.single {s t : σ} {l : ι} (hstep : M.step s l t) : M.Run s [l] t := .snoc (.nil s) hstep

theorem Run.append {s t u : σ} {ls ms : List ι} (hfirst : M.Run s ls t) (hrest : M.Run t ms u) :
    M.Run s (ls ++ ms) u := by
  induction hrest with
  | nil => simpa using hfirst
  | snoc _ hstep ih =>
    rw [← List.append_assoc]
    exact .snoc ih hstep

theorem Run.eq_of_nil {s t : σ} (hrun : M.Run s [] t) : s = t := by
  generalize hlabels : [] = labels at hrun
  cases hrun with
  | nil => rfl
  | snoc => exact absurd hlabels (by simp)

theorem Run.uncons {s u : σ} {l : ι} {ls : List ι} (hrun : M.Run s (l :: ls) u) :
    ∃ t, M.step s l t ∧ M.Run t ls u := by
  generalize hlabels : l :: ls = labels at hrun
  induction hrun generalizing ls with
  | nil => cases hlabels
  | snoc hinit hlast ih =>
    rcases List.cons_eq_append_iff.mp hlabels with ⟨rfl, hsingle⟩ | ⟨rest, rfl, rfl⟩
    · obtain ⟨rfl, rfl⟩ := List.cons.inj hsingle
      obtain rfl := hinit.eq_of_nil
      exact ⟨_, hlast, .nil _⟩
    · obtain ⟨t, hfirst, hrest⟩ := ih rfl
      exact ⟨t, hfirst, .snoc hrest hlast⟩

theorem Run.mono {N : Machine σ ι} (hsteps : ∀ s l t, M.step s l t → N.step s l t) {s t : σ}
    {ls : List ι} (hrun : M.Run s ls t) : N.Run s ls t := by
  induction hrun with
  | nil => exact .nil _
  | snoc _ hlast ih => exact .snoc ih (hsteps _ _ _ hlast)

/-- What holds of no labels and is kept by every step holds of the labels of a run. -/
theorem Run.labelled {I : List ι → σ → Prop} {s t : σ} {ls : List ι} (hrun : M.Run s ls t)
    (hinit : I [] s) (hstep : ∀ ls t l u, I ls t → M.step t l u → I (ls ++ [l]) u) : I ls t := by
  induction hrun with
  | nil => exact hinit
  | snoc _ hlast ih => exact hstep _ _ _ _ ih hlast

theorem Run.invariant {I : σ → Prop} (hstep : ∀ s l t, I s → M.step s l t → I t)
    {s t : σ} {ls : List ι} (hrun : M.Run s ls t) (hs : I s) : I t :=
  hrun.labelled (I := fun _ => I) hs fun _ => hstep

theorem Reachable.of_init {s : σ} (hinit : M.init s) : M.Reachable s := ⟨s, [], hinit, .nil s⟩

theorem Reachable.step {s t : σ} {l : ι} (hs : M.Reachable s) (hstep : M.step s l t) :
    M.Reachable t := by
  obtain ⟨s₀, ls, hinit, hrun⟩ := hs
  exact ⟨s₀, ls ++ [l], hinit, .snoc hrun hstep⟩

theorem Reachable.mono {N : Machine σ ι} (hinit : ∀ s, M.init s → N.init s)
    (hsteps : ∀ s l t, M.step s l t → N.step s l t) {s : σ} (hs : M.Reachable s) :
    N.Reachable s := by
  obtain ⟨s₀, ls, h₀, hrun⟩ := hs
  exact ⟨s₀, ls, hinit s₀ h₀, hrun.mono hsteps⟩

theorem Run.foldlM {init : σ → Prop} {next : σ → ι → Option σ} {s t : σ} {ls : List ι}
    (hlabels : ls.foldlM next s = some t) : (ofNext init next).Run s ls t := by
  induction ls generalizing s with
  | nil =>
    obtain rfl : s = t := by simpa using hlabels
    exact .nil s
  | cons l ls ih =>
    obtain ⟨middle, hnext, hrest⟩ := Option.bind_eq_some_iff.mp hlabels
    exact (Run.single hnext).append (ih hrest)

theorem Reachable.foldlM {init : σ → Prop} {next : σ → ι → Option σ} {s t : σ} {ls : List ι}
    (hs : (ofNext init next).Reachable s) (hlabels : ls.foldlM next s = some t) :
    (ofNext init next).Reachable t := by
  obtain ⟨s₀, before, hinit, hrun⟩ := hs
  exact ⟨s₀, before ++ ls, hinit, hrun.append (.foldlM hlabels)⟩

theorem exists_run {init : σ → Prop} {next : σ → ι → Option σ} {P : σ → Prop}
    [DecidablePred P] {s : σ} {ls : List ι} (M : Machine σ ι) (hM : M = ofNext init next)
    (hrun : (ls.foldlM next s).any (fun t => decide (P t)) = true) : ∃ t, M.Run s ls t ∧ P t := by
  obtain ⟨t, ht⟩ := Option.isSome_iff_exists.mp (Option.isSome_of_any hrun)
  rw [ht] at hrun
  exact ⟨t, hM ▸ .foldlM ht, of_decide_eq_true hrun⟩

theorem exists_reachable {init : σ → Prop} {next : σ → ι → Option σ} {P : σ → Prop}
    [DecidablePred P] {s : σ} {ls : List ι} (M : Machine σ ι) (hM : M = ofNext init next)
    (hinit : init s) (hrun : (ls.foldlM next s).any (fun t => decide (P t)) = true) :
    ∃ t, M.Reachable t ∧ P t := by
  obtain ⟨t, ht, hP⟩ := M.exists_run hM hrun
  exact ⟨t, ⟨s, ls, hM ▸ hinit, ht⟩, hP⟩

/-- The invariant rule: what holds initially and is kept by every step holds of every reachable
state. -/
theorem Reachable.invariant {I : σ → Prop} (hinit : ∀ s, M.init s → I s)
    (hstep : ∀ s l t, I s → M.step s l t → I t) {s : σ} (hs : M.Reachable s) : I s := by
  obtain ⟨s₀, ls, h₀, hrun⟩ := hs
  exact hrun.invariant hstep (hinit s₀ h₀)

end Machine

end OrbitKV
