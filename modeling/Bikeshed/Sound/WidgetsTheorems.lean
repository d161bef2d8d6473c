import Bikeshed.Sound.Widgets
import Bikeshed.Lib.Descent

/-!
# When `hda_dfs` finds a path
-/

namespace Bikeshed.Sound

open Lib Relation

variable {afg : AudioFunctionGroup} {aw next u v : AudioWidget} {path : List AudioWidget}
  {conns before : List Word} {n : Word} {fuel : ℕ}

/-- The recursive call of the search -/
abbrev Dfs := List AudioWidget → AudioWidget → Option (Except String (Word × List AudioWidget))

/-! ## The group -/

lemma setWidth_node_inj {a b : Byte} (h : a.setWidth 64 = (b.setWidth 64 : Word)) : a = b := by
  have hval := congrArg BitVec.toNat h
  rw [BitVec.toNat_setWidth_of_le (by decide), BitVec.toNat_setWidth_of_le (by decide)] at hval
  exact BitVec.eq_of_toNat_eq hval

/-- Node numbers are unique. -/
lemma eq_of_node (hu : u ∈ afg.widgets) (hv : v ∈ afg.widgets) (h : u.node = v.node) : u = v :=
  List.inj_on_of_nodup_map afg.nodup hu hv h

/-- A widget is found by its number. -/
lemma findWidget_node (hv : v ∈ afg.widgets) :
    findWidget afg ((v.node.setWidth 64).setWidth 32) = some v := by
  have hnode : (v.node.setWidth 64).setWidth 32 = v.node.setWidth 32 :=
    BitVec.setWidth_setWidth_of_le _ (by decide)
  have hsome : (findWidget afg (v.node.setWidth 32)).isSome :=
    List.find?_isSome.mpr ⟨v, hv, decide_eq_true rfl⟩
  obtain ⟨w, hw⟩ := Option.isSome_iff_exists.mp hsome
  have hfound := hw
  unfold findWidget at hfound
  have hwv : (w.node.setWidth 32 : BitVec 32) = v.node.setWidth 32 := by
    simpa using List.find?_some hfound
  have hval := congrArg BitVec.toNat hwv
  rw [BitVec.toNat_setWidth_of_le (by decide), BitVec.toNat_setWidth_of_le (by decide)] at hval
  rw [hnode, hw, eq_of_node (List.mem_of_find?_eq_some hfound) hv (BitVec.eq_of_toNat_eq hval)]

lemma connLength_pos_iff (aw : AudioWidget) : aw.connLength > 0 ↔ aw.lstConn ≠ [] := by
  rw [← List.length_pos_iff, aw.length_eq]
  exact BitVec.lt_def

/-- The search follows connections. -/
lemma Searched.connected (h : Searched afg u v) : Connected afg u v := by
  obtain ⟨-, hv, before, conns, hlist, -⟩ := h
  exact ⟨hv, hlist ▸ List.mem_append_right _ List.mem_cons_self⟩

/-- A connection to a widget that reaches a converter -/
lemma CanReach.of_connected (h : CanReach afg v) (huv : Connected afg u v) : CanReach afg u := by
  obtain ⟨c, hvc, hc⟩ := h
  exact ⟨c, .head huv hvc, hc⟩

/-- A widget that is not a converter reaches one through a connection. -/
lemma CanReach.exists_conn (h : CanReach afg u) (hu : u.type ≠ awTypeOutConv) :
    ∃ v, Connected afg u v ∧ CanReach afg v := by
  obtain ⟨c, huc, hc⟩ := h
  obtain rfl | ⟨v, huv, hvc⟩ := ReflTransGen.cases_head huc
  · exact absurd hc hu
  · exact ⟨v, huv, c, hvc, hc⟩

/-! ## What a call returns -/

/-- A result of `hda_dfs` for the widget `aw`. -/
inductive Outcome (afg : AudioFunctionGroup) (aw : AudioWidget) (path : List AudioWidget) :
    Except String (Word × List AudioWidget) → Prop
  | found {chain : List AudioWidget} : CanReach afg aw → Route afg aw chain →
    Outcome afg aw path (.ok (1, chain ++ path))
  | missed : ¬CanReach afg aw → Outcome afg aw path (.ok (0, path))

/-- The recursive calls return what they have to. -/
def Correct (afg : AudioFunctionGroup) (dfs : Dfs) : Prop :=
  ∀ next ∈ afg.widgets, ∀ path x, dfs path next = some x → Outcome afg next path x

/-- One round of the loop: the call for `next` does not return, or finds a route, or misses. -/
lemma dfsLoop_cons {dfs : Dfs} (hdfs : Correct afg dfs) (hnext : next ∈ afg.widgets)
    (aw : AudioWidget) (path : List AudioWidget) (conns : List Word) :
    dfs path next = none ∧ dfsLoop dfs afg aw path (next.node.setWidth 64 :: conns) = none ∨
      (∃ chain, dfs path next ≠ none ∧ CanReach afg next ∧ Route afg next chain ∧
        dfsLoop dfs afg aw path (next.node.setWidth 64 :: conns)
          = some (.ok (1, aw :: chain ++ path))) ∨
      dfs path next ≠ none ∧ ¬CanReach afg next ∧
        dfsLoop dfs afg aw path (next.node.setWidth 64 :: conns)
          = dfsLoop dfs afg aw path conns := by
  rw [dfsLoop, findWidget_node hnext]
  simp only
  rcases hcall : dfs path next with _ | x
  · exact .inl ⟨rfl, rfl⟩
  · have hout := hdfs next hnext path x hcall
    cases hout with
    | @found chain hreach hroute =>
      exact .inr (.inl ⟨chain, Option.some_ne_none _, hreach, hroute, rfl⟩)
    | missed hmiss => exact .inr (.inr ⟨Option.some_ne_none _, hmiss, rfl⟩)

/-- Connections that lead to no converter are passed over. -/
lemma dfsLoop_skip {dfs : Dfs} (hdfs : Correct afg dfs) (haw : aw ∈ afg.widgets)
    (hbefore : ∀ n ∈ before, n ∈ aw.lstConn)
    (hmiss : ∀ w ∈ afg.widgets, w.node.setWidth 64 ∈ before → ¬CanReach afg w)
    (h : dfsLoop dfs afg aw path (before ++ conns) ≠ none) :
    dfsLoop dfs afg aw path conns ≠ none := by
  induction before with
  | nil => exact h
  | cons n before ih =>
    obtain ⟨next, hnext, rfl⟩ := afg.names aw haw n (hbefore n List.mem_cons_self)
    rw [List.cons_append] at h
    rcases dfsLoop_cons hdfs hnext aw path (before ++ conns) with
      ⟨-, hnone⟩ | ⟨chain, -, hreach, -⟩ | ⟨-, -, hrest⟩
    · exact absurd hnone h
    · exact absurd hreach (hmiss next hnext List.mem_cons_self)
    · exact ih (fun n hn => hbefore n (List.mem_cons_of_mem _ hn))
        (fun w hw hn => hmiss w hw (List.mem_cons_of_mem _ hn)) (hrest ▸ h)

/-- What the loop returns: the first connection that leads to a converter decides. -/
lemma dfsLoop_outcome {dfs : Dfs} (hdfs : Correct afg dfs) (haw : aw ∈ afg.widgets)
    (hconns : ∀ n ∈ conns, n ∈ aw.lstConn) {x : Except String (Word × List AudioWidget)}
    (h : dfsLoop dfs afg aw path conns = some x) :
    (∃ chain, x = .ok (1, chain ++ path) ∧ CanReach afg aw ∧ Route afg aw chain) ∨
      x = .ok (0, path) ∧
        ∀ w ∈ afg.widgets, w.node.setWidth 64 ∈ conns → ¬CanReach afg w := by
  induction conns with
  | nil =>
    obtain rfl := Option.some.inj h
    exact .inr ⟨rfl, fun w _ hn => absurd hn List.not_mem_nil⟩
  | cons n conns ih =>
    have hn : n ∈ aw.lstConn := hconns n List.mem_cons_self
    obtain ⟨next, hnext, rfl⟩ := afg.names aw haw n hn
    rcases dfsLoop_cons hdfs hnext aw path conns with
      ⟨-, hnone⟩ | ⟨chain, -, hreach, hroute, hfound⟩ | ⟨-, hmiss, hrest⟩
    · rw [hnone] at h
      cases h
    · rw [hfound] at h
      obtain rfl := Option.some.inj h
      exact .inl ⟨aw :: chain, rfl, hreach.of_connected ⟨hnext, hn⟩, .via ⟨hnext, hn⟩ hroute⟩
    · rw [hrest] at h
      refine (ih (fun n hn => hconns n (List.mem_cons_of_mem _ hn)) h).imp_right fun hout => ?_
      refine ⟨hout.1, fun w hw hn => ?_⟩
      rcases List.mem_cons.mp hn with heq | hn
      · rw [eq_of_node hw hnext (setWidth_node_inj heq)]
        exact hmiss
      · exact hout.2 w hw hn

/-- Whenever `hda_dfs` returns it has found a route, or there is none. -/
theorem hdaDfs_correct (fuel : ℕ) : Correct afg (hdaDfs afg fuel) := by
  induction fuel with
  | zero => exact fun _ _ _ _ h => absurd h nofun
  | succ fuel ih =>
    intro aw haw path x h
    rw [hdaDfs] at h
    split at h
    next hconv =>
      obtain rfl := Option.some.inj h
      exact .found ⟨aw, .refl, hconv⟩ (.arrived hconv)
    next hconv =>
      -- the converters that the widget can reach, it reaches through a connection
      have hnone : (∀ w ∈ afg.widgets, w.node.setWidth 64 ∈ aw.lstConn → ¬CanReach afg w) →
          ¬CanReach afg aw := fun hall hreach => by
        obtain ⟨v, hv, hvreach⟩ := hreach.exists_conn hconv
        exact hall v hv.1 hv.2 hvreach
      split at h
      next =>
        rcases dfsLoop_outcome ih haw (fun _ hn => hn) h with ⟨chain, rfl, hreach, hroute⟩ | hmiss
        · exact .found hreach hroute
        · obtain ⟨rfl, hall⟩ := hmiss
          exact .missed (hnone hall)
      next hlength =>
        obtain rfl := Option.some.inj h
        have hnil : aw.lstConn = [] := not_not.mp ((connLength_pos_iff aw).not.mp hlength)
        refine .missed (hnone fun w _ hn => ?_)
        rw [hnil] at hn
        cases hn

/-! ## When it returns -/

/-- A better recursive call gives the same results. -/
lemma dfsLoop_mono {dfs dfs' : Dfs} (hmono : ∀ path next x, dfs path next = some x →
    dfs' path next = some x) {x : Except String (Word × List AudioWidget)}
    (h : dfsLoop dfs afg aw path conns = some x) : dfsLoop dfs' afg aw path conns = some x := by
  induction conns generalizing path with
  | nil => exact h
  | cons n conns ih =>
    rw [dfsLoop] at h ⊢
    split at h
    next => exact h
    next next hfind =>
      rcases hcall : dfs path next with _ | _ | ⟨found, path'⟩
      · rw [hcall] at h
        cases h
      · rw [hcall] at h
        rw [hmono _ _ _ hcall]
        exact h
      · rw [hcall] at h
        rw [hmono _ _ _ hcall]
        simp only at h ⊢
        split at h
        next hfound => rw [if_pos hfound, h]
        next hfound => rw [if_neg hfound, ih h]

/-- More fuel changes no result. -/
lemma hdaDfs_mono {fuel' : ℕ} (hle : fuel ≤ fuel') {x : Except String (Word × List AudioWidget)}
    (h : hdaDfs afg fuel path aw = some x) : hdaDfs afg fuel' path aw = some x := by
  induction fuel generalizing fuel' path aw x with
  | zero => cases h
  | succ fuel ih =>
    obtain ⟨k, rfl⟩ : ∃ k, fuel' = k + 1 := Nat.exists_eq_add_one.mpr (by omega)
    rw [hdaDfs] at h ⊢
    split at h
    next hconv => rw [if_pos hconv, h]
    next hconv =>
      rw [if_neg hconv]
      split at h
      next hlength =>
        rw [if_pos hlength]
        exact dfsLoop_mono (fun _ _ _ hcall => ih (by omega) hcall) h
      next hlength => rw [if_neg hlength, h]

/-- A search that returns has ended wherever it went. -/
lemma ends_of_hdaDfs (haw : aw ∈ afg.widgets) (h : hdaDfs afg fuel path aw ≠ none) :
    Ends (Searched afg) aw := by
  induction fuel generalizing path aw with
  | zero => exact absurd rfl h
  | succ fuel ih =>
    refine .intro _ fun v hv => ?_
    obtain ⟨hconv, hvmem, before, conns, hlist, hmiss⟩ := hv
    have hlength : aw.connLength > 0 := by
      rw [connLength_pos_iff, hlist]
      exact List.append_ne_nil_of_right_ne_nil _ (List.cons_ne_nil _ _)
    rw [hdaDfs, if_neg hconv, if_pos hlength, hlist] at h
    have hloop := dfsLoop_skip (hdaDfs_correct fuel) haw
      (fun n hn => hlist ▸ List.mem_append_left _ hn) hmiss h
    rcases dfsLoop_cons (hdaDfs_correct fuel) hvmem aw path conns with
      ⟨-, hnone⟩ | ⟨chain, hcall, -⟩ | ⟨hcall, -⟩
    · exact absurd hnone hloop
    · exact ih hvmem hcall
    · exact ih hvmem hcall

/-- The loop returns if every call returns that it can come to. -/
lemma dfsLoop_returns (haw : aw ∈ afg.widgets) (hconv : aw.type ≠ awTypeOutConv)
    (hcalls : ∀ v, Searched afg aw v → ∃ fuel, hdaDfs afg fuel path v ≠ none)
    (hlist : aw.lstConn = before ++ conns)
    (hmiss : ∀ w ∈ afg.widgets, w.node.setWidth 64 ∈ before → ¬CanReach afg w) :
    ∃ fuel, dfsLoop (hdaDfs afg fuel) afg aw path conns ≠ none := by
  induction conns generalizing before with
  | nil => exact ⟨0, Option.some_ne_none _⟩
  | cons n conns ih =>
    have hn : n ∈ aw.lstConn := hlist ▸ List.mem_append_right _ List.mem_cons_self
    obtain ⟨next, hnext, rfl⟩ := afg.names aw haw n hn
    obtain ⟨fuel, hcall⟩ := hcalls next ⟨hconv, hnext, before, conns, hlist, hmiss⟩
    by_cases hreach : CanReach afg next
    · refine ⟨fuel, ?_⟩
      rcases dfsLoop_cons (hdaDfs_correct fuel) hnext aw path conns with
        ⟨hnone, -⟩ | ⟨chain, -, -, -, hfound⟩ | ⟨-, hno, -⟩
      · exact absurd hnone hcall
      · exact hfound ▸ Option.some_ne_none _
      · exact absurd hreach hno
    · have hlist' : aw.lstConn = (before ++ [next.node.setWidth 64]) ++ conns :=
        hlist.trans (List.append_cons ..)
      obtain ⟨fuel', hloop⟩ := ih hlist' fun w hw hwn => by
        rcases List.mem_append.mp hwn with hwn | hwn
        · exact hmiss w hw hwn
        · rw [eq_of_node hw hnext (setWidth_node_inj (List.mem_singleton.mp hwn))]
          exact hreach
      -- enough for the call and for the rest of the loop
      refine ⟨max fuel fuel', ?_⟩
      obtain ⟨x, hx⟩ := Option.ne_none_iff_exists'.mp hcall
      obtain ⟨y, hy⟩ := Option.ne_none_iff_exists'.mp hloop
      have hcall' := hdaDfs_mono (le_max_left fuel fuel') hx
      have hloop' := dfsLoop_mono (fun _ _ _ => hdaDfs_mono (le_max_right fuel fuel')) hy
      rcases dfsLoop_cons (hdaDfs_correct (max fuel fuel')) hnext aw path conns with
        ⟨hnone, -⟩ | ⟨chain, -, hyes, -⟩ | ⟨-, -, hrest⟩
      · rw [hnone] at hcall'
        cases hcall'
      · exact absurd hyes hreach
      · rw [hrest, hloop']
        exact Option.some_ne_none _

/-- Without cycles there is enough fuel. -/
lemma hdaDfs_returns (h : Ends (Searched afg) aw) (haw : aw ∈ afg.widgets) :
    ∃ fuel, hdaDfs afg fuel path aw ≠ none := by
  induction h with
  | intro aw _ ih =>
    by_cases hconv : aw.type = awTypeOutConv
    · exact ⟨1, by rw [hdaDfs, if_pos hconv]; exact Option.some_ne_none _⟩
    by_cases hlength : aw.connLength > 0
    · obtain ⟨fuel, hloop⟩ : ∃ fuel, dfsLoop (hdaDfs afg fuel) afg aw path aw.lstConn ≠ none :=
        dfsLoop_returns haw hconv (fun v hv => ih v hv hv.2.1) (List.nil_append _).symm
          fun w _ hn => absurd hn List.not_mem_nil
      exact ⟨fuel + 1, by rw [hdaDfs, if_neg hconv, if_pos hlength]; exact hloop⟩
    · exact ⟨1, by rw [hdaDfs, if_neg hconv, if_neg hlength]; exact Option.some_ne_none _⟩

/-- The search ends with the right answer exactly when it cannot come to a cycle. -/
theorem findsRoute_iff (haw : aw ∈ afg.widgets) :
    FindsRoute afg aw ↔
      ∀ w, ReflTransGen (Searched afg) aw w → ¬TransGen (Searched afg) w w := by
  rw [← ends_iff fun u v huv => huv.2.1]
  constructor
  · intro h
    obtain ⟨fuel, found, path', hcall, -⟩ := h []
    exact ends_of_hdaDfs haw (hcall ▸ Option.some_ne_none _)
  · intro hends path
    obtain ⟨fuel, hcall⟩ : ∃ fuel, hdaDfs afg fuel path aw ≠ none := hdaDfs_returns hends haw
    obtain ⟨x, hx⟩ := Option.ne_none_iff_exists'.mp hcall
    have hout := hdaDfs_correct fuel aw haw path x hx
    cases hout with
    | @found chain hreach hroute =>
      exact ⟨fuel, 1, _, hx, .inl ⟨rfl, hreach, chain, hroute, rfl⟩⟩
    | missed hmiss => exact ⟨fuel, 0, path, hx, .inr ⟨rfl, hmiss, rfl⟩⟩

/-! ## A pin and its converter, and a cycle on the way -/

def converter : AudioWidget := ⟨2, awTypeOutConv, 0, [], rfl⟩

def pin : AudioWidget := ⟨4, 4, 1, [2], rfl⟩

def pinGroup : AudioFunctionGroup := ⟨[converter, pin], by decide, by simp [converter, pin]⟩

/-- A pin that is connected to the converter -/
theorem pin_findsRoute : FindsRoute pinGroup pin := by
  have hconverter : Ends (Searched pinGroup) converter := .intro _ fun v hv => absurd rfl hv.1
  have hpin : Ends (Searched pinGroup) pin := by
    refine .intro _ fun v hv => ?_
    obtain ⟨hmem, hconn⟩ := hv.connected
    rcases List.mem_cons.mp hmem with rfl | hmem
    · exact hconverter
    · rw [List.mem_singleton.mp hmem] at hconn
      exact absurd hconn (by decide)
  exact (findsRoute_iff (by simp [pinGroup])).mpr ((ends_iff fun u v huv => huv.2.1).mp hpin)

def mixer : AudioWidget := ⟨3, 2, 2, [5, 2], rfl⟩

def selector : AudioWidget := ⟨5, 3, 1, [3], rfl⟩

def mixerPin : AudioWidget := ⟨4, 4, 1, [3], rfl⟩

def mixerGroup : AudioFunctionGroup :=
  ⟨[converter, mixer, mixerPin, selector], by decide,
    by simp [converter, mixer, mixerPin, selector]⟩

/-- The mixer and the selector are connected to each other: from the pin `hda_dfs` never returns,
though the converter is next to the mixer. -/
theorem mixerPin_not_findsRoute :
    CanReach mixerGroup mixerPin ∧ ¬FindsRoute mixerGroup mixerPin := by
  have hpin : mixerPin ∈ mixerGroup.widgets := by simp [mixerGroup]
  have hmixer : mixer ∈ mixerGroup.widgets := by simp [mixerGroup]
  have hselector : selector ∈ mixerGroup.widgets := by simp [mixerGroup]
  have hconverter : converter ∈ mixerGroup.widgets := by simp [mixerGroup]
  constructor
  · have hfirst : Connected mixerGroup mixerPin mixer := ⟨hmixer, by decide⟩
    have hsecond : Connected mixerGroup mixer converter := ⟨hconverter, by decide⟩
    exact ⟨converter, .head hfirst (.single hsecond), rfl⟩
  · intro h
    obtain ⟨fuel, found, path', hcall, -⟩ := h []
    have hends : Ends (Searched mixerGroup) mixerPin :=
      ends_of_hdaDfs hpin (hcall ▸ Option.some_ne_none _)
    have hdown : Searched mixerGroup mixerPin mixer :=
      ⟨by decide, hmixer, [], [], rfl, fun w _ hn => absurd hn List.not_mem_nil⟩
    have hround : Searched mixerGroup mixer selector :=
      ⟨by decide, hselector, [], [2], rfl, fun w _ hn => absurd hn List.not_mem_nil⟩
    have hback : Searched mixerGroup selector mixer :=
      ⟨by decide, hmixer, [], [], rfl, fun w _ hn => absurd hn List.not_mem_nil⟩
    exact (hends.of_reach (.single hdown)).not_transGen (.tail (.single hround) hback)

end Bikeshed.Sound
