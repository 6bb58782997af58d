import OrbitKV.Lib.Bisect
import OrbitKV.Lib.Word

/-!
# Recovery contracts

A token position is a `u64` whose unchecked operators may panic; a `usize` is a natural number.
-/

namespace OrbitKV

open Std

inductive StateComponent where
  | attentionKv
  | mlaKv
  | recurrentCheckpoint
  | convolutionState
  | slidingWindowKv
  | draftKv
  | indexerState
  | opaqueState (name : String)
  deriving DecidableEq, Repr

/-- The half-open range `start..stop` of tokens. -/
structure TokenRange where
  start : UInt64
  stop : UInt64
  deriving DecidableEq, Repr

def TokenRange.isEmpty (range : TokenRange) : Bool :=
  range.start = range.stop

/-- `RecoveryRule`; `wholePrefix` is its `Prefix`. -/
inductive RecoveryRule where
  | wholePrefix
  | window (tokens : UInt64)
  | checkpoint
  deriving DecidableEq, Repr

/-- `StateRequirement`, with the set of its components in order. -/
structure StateRequirement where
  group : UInt32
  components : List StateComponent
  rule : RecoveryRule

structure BundleComponent where
  group : UInt32
  pageEnds : List UInt64

structure StateBundle where
  ns : String
  span : TokenRange
  components : List BundleComponent

inductive RecoveryError where
  | invalidContract (reason : String)
  | incompatibleNamespace
  | invalidSpan
  | invalidGroup (group : UInt32)
  | invalidCoverage (group : UInt32)
  deriving DecidableEq, Repr

abbrev Recovered (α : Type) := Except (Failure RecoveryError) α

/-! ### Demands -/

structure RecoveryDemand where
  pageTokens : UInt64
  span : TokenRange
  groups : List (UInt32 × TokenRange)

def RecoveryDemand.rangeInvalid (demand : RecoveryDemand) (range : TokenRange) : Bool :=
  range.start < demand.span.start || range.stop < range.start || range.stop ≠ demand.span.stop ||
    !isMultipleOf range.start demand.pageTokens || (range.isEmpty && !demand.span.isEmpty)

/-- The loop of `validate`: the pages of the selected group, if it is declared. -/
def RecoveryDemand.selectGroup (demand : RecoveryDemand) (group : UInt32) :
    List (UInt32 × TokenRange) → (previous : Option UInt32) → (selected : Option UInt64) →
      Recovered (Option UInt64)
  | [], _, selected => .ok selected
  | (id, range) :: groups, previous, selected =>
    if previous.any (id ≤ ·) then
      fail (.invalidGroup id)
    else if demand.rangeInvalid range then
      fail (.invalidCoverage id)
    else if id = group then do
      let tokens ← orPanic (checkedSub range.stop range.start)
      let pages ← orPanic (checkedDiv tokens demand.pageTokens)
      demand.selectGroup group groups (some id) (some pages)
    else
      demand.selectGroup group groups (some id) selected

def RecoveryDemand.validate (demand : RecoveryDemand) (group : UInt32) (blocks : Nat) :
    Recovered Unit :=
  if demand.pageTokens = 0 || demand.span.stop < demand.span.start ||
      !isMultipleOf demand.span.start demand.pageTokens ||
      !isMultipleOf demand.span.stop demand.pageTokens then
    fail .invalidSpan
  else if demand.groups.head? ≠ some (0, demand.span) then
    fail (.invalidGroup 0)
  else do
    match ← demand.selectGroup group demand.groups none none with
    | none => fail (.invalidGroup group)
    | some pages => if blocks = pages.toNat then .ok () else fail (.invalidCoverage group)

/-! ### Compilation -/

/-- `requirements` maps each group to `none` for the full queried tail, or to the number of its last
pages. -/
structure RecoveryContract where
  ns : String
  pageTokens : UInt64
  requirements : ExtTreeMap UInt32 (Option UInt64)
  deriving DecidableEq

def RecoveryRule.admits : RecoveryRule → StateComponent → Bool
  | .wholePrefix, .attentionKv | .wholePrefix, .mlaKv => true
  | .window _, .slidingWindowKv => true
  | .checkpoint, .recurrentCheckpoint | .checkpoint, .convolutionState => true
  | _, _ => false

def RecoveryRule.windowInvalid (pageTokens : UInt64) : RecoveryRule → Recovered Bool
  | .window tokens =>
    if tokens = 0 then .ok true
    else do
      let slack ← orPanic (checkedSub pageTokens 1)
      return (checkedAdd tokens slack).isNone
  | .wholePrefix | .checkpoint => .ok false

def RecoveryRule.pages (pageTokens : UInt64) : RecoveryRule → Option UInt64
  | .wholePrefix => none
  | .window tokens => some (divCeil tokens pageTokens)
  | .checkpoint => some 1

def compileRules (pageTokens : UInt64) :
    List StateRequirement → ExtTreeMap UInt32 (Option UInt64) →
      Recovered (ExtTreeMap UInt32 (Option UInt64))
  | [], rules => .ok rules
  | requirement :: requirements, rules =>
    if requirement.components = [] then
      fail (.invalidContract "group has no state components")
    else if !requirement.components.all requirement.rule.admits then
      fail (.invalidContract "unsupported component/recovery rule")
    else do
      if ← requirement.rule.windowInvalid pageTokens then
        fail (.invalidContract "invalid sliding window")
      else if rules.contains requirement.group then
        fail (.invalidGroup requirement.group)
      else
        compileRules pageTokens requirements
          (rules.insert requirement.group (requirement.rule.pages pageTokens))

namespace RecoveryContract

variable (contract : RecoveryContract) (ns : String) (span : TokenRange)

def compile (pageTokens : UInt64) (requirements : List StateRequirement) :
    Recovered RecoveryContract :=
  if ns = "" ∨ pageTokens = 0 ∨ requirements = [] then
    fail (.invalidContract "empty identity, page size or requirements")
  else do
    let rules ← compileRules pageTokens requirements ∅
    if rules[(0 : UInt32)]? ≠ some none then
      fail (.invalidContract "group zero must supply the attention prefix")
    else
      return ⟨ns, pageTokens, rules⟩

/-! ### Ranges -/

def requiredSpan (pages : Option UInt64) : Recovered TokenRange := do
  let tokens ← orPanic (checkedSub span.stop span.start)
  let available ← orPanic (checkedDiv tokens contract.pageTokens)
  let count := min available (pages.getD maxWord)
  let used ← orPanic (checkedMul count contract.pageTokens)
  let start ← orPanic (checkedSub span.stop used)
  return ⟨start, span.stop⟩

def validateSpan : Recovered Unit :=
  if ns ≠ contract.ns then
    fail .incompatibleNamespace
  else if span.stop < span.start || !isMultipleOf span.start contract.pageTokens ||
      !isMultipleOf span.stop contract.pageTokens then
    fail .invalidSpan
  else
    .ok ()

def requiredRanges : Recovered (List (UInt32 × TokenRange)) := do
  contract.validateSpan ns span
  contract.requirements.toList.mapM fun (group, pages) => do
    return (group, ← contract.requiredSpan span pages)

def demand : Recovered RecoveryDemand := do
  return ⟨contract.pageTokens, span, ← contract.requiredRanges ns span⟩

def pageIndex (start position : UInt64) : Recovered Nat := do
  let tokens ← orPanic (checkedSub position start)
  let pages ← orPanic (checkedDiv tokens contract.pageTokens)
  return pages.toNat

/-- `read_range`: the first index and the index past the last one. -/
def readRange (group : UInt32) (batchLen : Nat) : Recovered (Nat × Nat) := do
  contract.validateSpan ns span
  match contract.requirements[group]? with
  | none => fail (.invalidGroup group)
  | some pages => do
      let needed ← contract.requiredSpan span pages
      let start ← contract.pageIndex span.start needed.start
      let stop ← contract.pageIndex span.start needed.stop
      if batchLen < stop then fail .invalidSpan else return (start, stop)

/-! ### Boundaries -/

/-- The inner loop of `restorable_boundaries` that checks the page ends of a component. -/
def checkEnds (contract : RecoveryContract) (group : UInt32) (stop : UInt64) :
    (previous : UInt64) → List UInt64 → Recovered Unit
  | _, [] => .ok ()
  | previous, pageEnd :: pageEnds =>
    if pageEnd ≤ previous || stop < pageEnd || !isMultipleOf pageEnd contract.pageTokens then
      fail (.invalidCoverage group)
    else
      contract.checkEnds group stop pageEnd pageEnds

/-- The loop of `restorable_boundaries` over the components. -/
def gatherCoverage (contract : RecoveryContract) (span : TokenRange) :
    List BundleComponent → ExtTreeMap UInt32 (List UInt64) →
      Recovered (ExtTreeMap UInt32 (List UInt64))
  | [], coverage => .ok coverage
  | component :: components, coverage =>
    if !contract.requirements.contains component.group || coverage.contains component.group then
      fail (.invalidGroup component.group)
    else do
      contract.checkEnds component.group span.stop span.start component.pageEnds
      contract.gatherCoverage span components (coverage.insert component.group component.pageEnds)

def checkGroups (coverage : ExtTreeMap UInt32 (List UInt64)) : List UInt32 → Recovered Unit
  | [] => .ok ()
  | group :: groups =>
    if coverage.contains group then checkGroups coverage groups else fail (.invalidGroup group)

/-- Whether the pages of one group suffice to restore up to `boundary`. -/
def groupComplete (start : UInt64) (coverage : ExtTreeMap UInt32 (List UInt64)) (boundary : UInt64)
    (requirement : UInt32 × Option UInt64) : Recovered Bool := do
  let pageEnds ← orPanic coverage[requirement.1]?
  let needed ← contract.requiredSpan ⟨start, boundary⟩ requirement.2
  let first := partitionPoint (· ≤ needed.start) pageEnds
  let last := partitionPoint (· ≤ needed.stop) pageEnds
  let found ← orPanic (if first ≤ last then some (last - first) else none)
  let tokens ← orPanic (checkedSub needed.stop needed.start)
  let pages ← orPanic (checkedDiv tokens contract.pageTokens)
  return found = pages.toNat

/-- The last loop of `restorable_boundaries`, over the page ends of group zero. -/
def collectBoundaries (contract : RecoveryContract) (start : UInt64)
    (coverage : ExtTreeMap UInt32 (List UInt64)) :
    (index : Nat) → List UInt64 → Recovered (List UInt64)
  | _, [] => .ok []
  | index, boundary :: boundaries => do
      let tokens ← orPanic (checkedSub boundary start)
      let pages ← orPanic (checkedDiv tokens contract.pageTokens)
      let position ← orPanic (checkedAdd (.ofNat index) 1)
      if pages ≠ position then
        return []
      else
        let complete ← contract.requirements.toList.allM
          (contract.groupComplete start coverage boundary)
        let rest ← contract.collectBoundaries start coverage (index + 1) boundaries
        return if complete then boundary :: rest else rest

def restorableBoundaries (bundle : StateBundle) : Recovered (List UInt64) := do
  contract.validateSpan bundle.ns bundle.span
  let coverage ← contract.gatherCoverage bundle.span bundle.components ∅
  checkGroups coverage contract.requirements.keys
  let pageEnds ← orPanic coverage[(0 : UInt32)]?
  contract.collectBoundaries bundle.span.start coverage 0 pageEnds

def pageEnd (start : UInt64) (position : UInt32) : Option UInt64 :=
  ((checkedAdd position.toUInt64 1).bind (checkedMul · contract.pageTokens)).bind
    (checkedAdd · start)

def shardBundle (groups : List (UInt32 × List UInt32)) : Recovered StateBundle := do
  let components ← groups.mapM fun (group, positions) => do
    let pageEnds ← positions.mapM fun position =>
      match contract.pageEnd span.start position with
      | none => fail (.invalidCoverage group)
      | some pageEnd => .ok pageEnd
    return (⟨group, pageEnds⟩ : BundleComponent)
  return ⟨ns, span, components⟩

def shardBoundaries (groups : List (UInt32 × List UInt32)) : Recovered (List UInt64) := do
  contract.restorableBoundaries (← contract.shardBundle ns span groups)

def intersectShards (contract : RecoveryContract) (ns : String) (span : TokenRange) :
    List (List (UInt32 × List UInt32)) → (common : Option (ExtTreeSet UInt64)) →
      Recovered (Option (ExtTreeSet UInt64))
  | [], common => .ok common
  | groups :: shards, common => do
      let legal := ExtTreeSet.ofList (← contract.shardBoundaries ns span groups)
      contract.intersectShards ns span shards
        (some (common.elim legal fun common => common.filter legal.contains))

def commonBoundaries (shards : List (List (UInt32 × List UInt32))) : Recovered (List UInt64) := do
  contract.validateSpan ns span
  let common ← contract.intersectShards ns span shards none
  return (common.getD ∅).toList

def selectBoundary (shards : List (List (UInt32 × List UInt32))) (limit : UInt64) :
    Recovered (Option UInt64) := do
  let common ← contract.commonBoundaries ns span shards
  return common.reverse.find? (· ≤ limit)

end RecoveryContract

end OrbitKV
