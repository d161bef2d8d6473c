import Bikeshed.Lib.Word
import Mathlib.Logic.Relation

/-!
# The widgets of an audio function group

`hda_dfs` looks for a path from a widget to an output converter. It puts widgets in front of the
path with `list_insert_next` and NULL; here the path is the sequence of the list. Its recursion is
bounded by `fuel`: it returns nothing when that runs out. A failed `ASSERT` names its condition.
-/

namespace Bikeshed.Sound

open Lib Relation

def awTypeOutConv : Byte := 0

/-- What `hda_dfs` reads of a widget: the list of its connections, which `conn_info.length` counts,
holds node IDs. -/
structure AudioWidget where
  node : Byte
  type : Byte
  connLength : Byte
  lstConn : List Word
  length_eq : lstConn.length = connLength.toNat

/-- The widgets of a group have different node IDs, and the connections name only them. -/
structure AudioFunctionGroup where
  widgets : List AudioWidget
  nodup : (widgets.map AudioWidget.node).Nodup
  names : ∀ aw ∈ widgets, ∀ n ∈ aw.lstConn, ∃ next ∈ widgets, next.node.setWidth 64 = n

/-- The loop over `nodes.widgets` -/
def findWidget (afg : AudioFunctionGroup) (widget : BitVec 32) : Option AudioWidget :=
  afg.widgets.find? fun aw => aw.node.setWidth 32 = widget

/-- The loop over the connections: `dfs` is the recursive call. -/
def dfsLoop
    (dfs : List AudioWidget → AudioWidget → Option (Except String (Word × List AudioWidget)))
    (afg : AudioFunctionGroup) (aw : AudioWidget) (path : List AudioWidget) :
    List Word → Option (Except String (Word × List AudioWidget))
  | [] => some (.ok (0, path))
  | widgetNum :: conns =>
    match findWidget afg (widgetNum.setWidth 32) with
    | none => some (.error "ASSERT FAILED: aw_next != NULL")
    | some awNext =>
      match dfs path awNext with
      | none => none
      | some (.error e) => some (.error e)
      | some (.ok (found, path)) =>
        if found ≠ 0 then some (.ok (1, aw :: path)) else dfsLoop dfs afg aw path conns

/-- `hda_dfs`: the value it returns, and the path after it. -/
def hdaDfs (afg : AudioFunctionGroup) :
    ℕ → List AudioWidget → AudioWidget → Option (Except String (Word × List AudioWidget))
  | 0, _, _ => none
  | fuel + 1, path, aw =>
    if aw.type = awTypeOutConv then some (.ok (1, aw :: path))
    else if aw.connLength > 0 then dfsLoop (hdaDfs afg fuel) afg aw path aw.lstConn
    else some (.ok (0, path))

/-! ## Connections -/

/-- `v` is in the connection list of `u`. -/
def Connected (afg : AudioFunctionGroup) (u v : AudioWidget) : Prop :=
  v ∈ afg.widgets ∧ v.node.setWidth 64 ∈ u.lstConn

/-- An output converter is reachable along the connection lists. -/
def CanReach (afg : AudioFunctionGroup) (u : AudioWidget) : Prop :=
  ∃ c, ReflTransGen (Connected afg) u c ∧ c.type = awTypeOutConv

/-- A chain from a widget to an output converter, each widget in the connection list of the one
before it. -/
inductive Route (afg : AudioFunctionGroup) : AudioWidget → List AudioWidget → Prop
  | arrived {aw : AudioWidget} : aw.type = awTypeOutConv → Route afg aw [aw]
  | via {aw next : AudioWidget} {chain : List AudioWidget} :
    Connected afg aw next → Route afg next chain → Route afg aw (aw :: chain)

/-- The search ends, and returns 1 with a route in front of the path if an output converter is
reachable, else 0 with the path unchanged. -/
def FindsRoute (afg : AudioFunctionGroup) (aw : AudioWidget) : Prop :=
  ∀ path, ∃ fuel found path', hdaDfs afg fuel path aw = some (.ok (found, path')) ∧
    (found = 1 ∧ CanReach afg aw ∧ (∃ chain, Route afg aw chain ∧ path' = chain ++ path) ∨
      found = 0 ∧ ¬CanReach afg aw ∧ path' = path)

/-- `u` is not a converter, and none of its connections before `v` leads to one: the search goes on
from `u` to `v`. -/
def Searched (afg : AudioFunctionGroup) (u v : AudioWidget) : Prop :=
  u.type ≠ awTypeOutConv ∧ v ∈ afg.widgets ∧
    ∃ before conns, u.lstConn = before ++ v.node.setWidth 64 :: conns ∧
      ∀ w ∈ afg.widgets, w.node.setWidth 64 ∈ before → ¬CanReach afg w

end Bikeshed.Sound
