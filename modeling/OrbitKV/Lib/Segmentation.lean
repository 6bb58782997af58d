import Mathlib.Tactic

/-!
# Cutting a line into pieces

If what is left of a piece still fits when its front is cut off, then taking the longest piece each
time needs the fewest.
-/

namespace OrbitKV

variable {start stop count : Nat}

/-- `Segmentation fits start stop count`: `count` pieces that fit lead from `start` to `stop`. -/
inductive Segmentation (fits : Nat → Nat → Prop) : Nat → Nat → Nat → Prop
  | done (start : Nat) : Segmentation fits start start 0
  | piece {start middle stop count : Nat} (hfits : fits start middle)
      (hrest : Segmentation fits middle stop count) : Segmentation fits start stop (count + 1)

def Longest (fits : Nat → Nat → Prop) (start stop : Nat) : Prop :=
  fits start stop ∧ ∀ other, fits start other → other ≤ stop

variable {fits : Nat → Nat → Prop}

theorem Segmentation.mono {fits' : Nat → Nat → Prop}
    (hmono : ∀ start stop, fits start stop → fits' start stop)
    (hsegmentation : Segmentation fits start stop count) : Segmentation fits' start stop count := by
  induction hsegmentation with
  | done start => exact .done start
  | piece hfits _ ih => exact .piece (hmono _ _ hfits) ih

theorem Segmentation.le (hforward : ∀ start stop, fits start stop → start < stop)
    (hsegmentation : Segmentation fits start stop count) : start ≤ stop := by
  induction hsegmentation with
  | done start => exact le_rfl
  | piece hfits _ ih => exact (hforward _ _ hfits).le.trans ih

theorem Segmentation.longest_le (hforward : ∀ start stop, fits start stop → start < stop)
    (hcut : ∀ start middle stop, fits start stop → start ≤ middle → middle < stop →
      fits middle stop) (hlongest : Segmentation (Longest fits) start stop count)
    {behind other : Nat} (hbehind : behind ≤ start)
    (hother : Segmentation fits behind stop other) : count ≤ other := by
  induction hlongest generalizing behind other with
  | done start => exact Nat.zero_le _
  | @piece start middle stop count hpiece hrest ih =>
    have hahead : start < stop :=
      (hforward start middle hpiece.1).trans_le
        (Segmentation.le (fun _ _ hlong => hforward _ _ hlong.1) hrest)
    induction hother with
    | done => omega
    | @piece behind next stop other hfits hnext ihnext =>
      by_cases hpassed : next ≤ start
      · exact (ihnext hrest ih hpassed hahead).trans (Nat.le_succ _)
      · have hshort := hcut behind start next hfits hbehind (by omega)
        have hle := ih (hpiece.2 next hshort) hnext
        omega

end OrbitKV
