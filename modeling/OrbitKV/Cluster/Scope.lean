import Mathlib.Data.String.Basic
import OrbitKV.Lib.Sorted
import OrbitKV.Lib.Text
import OrbitKV.Server.QueryControl

/-!
# Inventory scopes

How a scope is made from the namespaces a receiver asks for, the bytes its digest is taken of, and
the two fields of an `InventoryOpen` that carry it. Texts are compared by code points, which is the
order of their bytes.
-/

namespace OrbitKV

def inventoryOpenMaxBytes : Nat := 64 * 1024

def inventoryScopeMaxNamespaces : Nat := 256

/-- `INVENTORY_SCOPE_DOMAIN`. -/
def inventoryScopeDomain : Bytes :=
  asBytes "orbitkv/inventory-scope/v1" ++ [0]

namespace InventoryScope

/-- A `usize` that is cast to `u32` keeps its last four bytes. -/
def canonicalBytes : InventoryScope → Bytes
  | .allNamespaces => inventoryScopeDomain ++ [0]
  | .exactNamespaces namespaces =>
    inventoryScopeDomain ++ [1] ++ beBytes 4 namespaces.length ++
      namespaces.flatMap fun ns => beBytes 4 (asBytes ns).length ++ asBytes ns

def exact (namespaces : List String) : Except String InventoryScope :=
  if namespaces.any String.isEmpty then
    .error "inventory scope contains an empty namespace"
  else
    let namespaces := sortDedup namespaces
    if inventoryScopeMaxNamespaces < namespaces.length then
      .error "inventory scope exceeds 256 namespaces"
    else
      let scope := .exactNamespaces namespaces
      if inventoryOpenMaxBytes < scope.canonicalBytes.length then
        .error "inventory scope descriptor exceeds 65536 bytes"
      else
        .ok scope

def namespaces : InventoryScope → Option (List String)
  | .allNamespaces => none
  | .exactNamespaces namespaces => some namespaces

end InventoryScope

/-! ### The fields of an open -/

inductive InventoryScopeMode where
  | unspecified
  | allNamespaces
  | exactNamespaces
  deriving DecidableEq, Repr

namespace InventoryScopeMode

/-- `mode as i32`. -/
def toInt32 : InventoryScopeMode → Int32
  | .unspecified => 0
  | .allNamespaces => 1
  | .exactNamespaces => 2

/-- `InventoryScopeMode::try_from`. -/
def ofInt32 (value : Int32) : Option InventoryScopeMode :=
  if value = 0 then some .unspecified
  else if value = 1 then some .allNamespaces
  else if value = 2 then some .exactNamespaces
  else none

@[simp]
theorem ofInt32_toInt32 (mode : InventoryScopeMode) : ofInt32 mode.toInt32 = some mode := by
  cases mode <;> rfl

theorem ofInt32_eq_some {value : Int32} {mode : InventoryScopeMode} :
    ofInt32 value = some mode ↔ value = mode.toInt32 := by
  constructor
  · intro hmode
    unfold ofInt32 at hmode
    split_ifs at hmode with hzero hone htwo <;> cases hmode <;> assumption
  · rintro rfl
    exact ofInt32_toInt32 mode

end InventoryScopeMode

/-- The fields of an `InventoryOpen` that `decode_scope` reads. -/
structure InventoryOpen where
  scopeMode : Int32
  scopeNamespaces : List Bytes
  deriving DecidableEq, Repr

def encodeScope : InventoryScope → InventoryOpen
  | .allNamespaces => ⟨InventoryScopeMode.allNamespaces.toInt32, []⟩
  | .exactNamespaces namespaces =>
    ⟨InventoryScopeMode.exactNamespaces.toInt32, namespaces.map asBytes⟩

/-- `std::str::from_utf8(namespace)`, with the status of the error. -/
def decodeNamespace (raw : Bytes) : Except Status String :=
  match String.fromUTF8? ⟨raw.toArray⟩ with
  | some ns => .ok ns
  | none => .error (.invalidArgument "inventory namespace is not UTF-8")

def decodeScope (message : InventoryOpen) : Except Status InventoryScope :=
  match InventoryScopeMode.ofInt32 message.scopeMode with
  | none => .error (.invalidArgument "unknown inventory scope mode")
  | some .unspecified =>
    .error (.failedPrecondition "inventory client does not declare a scope descriptor")
  | some .allNamespaces =>
    if message.scopeNamespaces.isEmpty then .ok .allNamespaces
    else .error (.invalidArgument "all-namespace scope carries exact namespaces")
  | some .exactNamespaces => do
    let supplied ← message.scopeNamespaces.mapM decodeNamespace
    match InventoryScope.exact supplied with
    | .error reason => .error (.invalidArgument reason)
    | .ok scope =>
      if scope.namespaces ≠ some supplied then
        .error (.invalidArgument "exact inventory namespaces are not sorted and unique")
      else
        .ok scope

end OrbitKV
