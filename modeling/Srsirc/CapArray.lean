import Srsirc.BoundedCopy
import Srsirc.NegotiationSteps
import Srsirc.WantedCaps

namespace Srsirc.CapArray

open CharMap Message UserBase Context Capabilities WantedCaps Slots
open BucketList (Alloc malloc)
open BoundedCopy (strNcat_take)
open NegotiationSteps (joinCaps mkCapreq_eq)

/-- The array `v3caps`, where `none` is the null pointer. -/
abbrev Caps := List (Option V3cap)

/-- `lsi_v3_init_caps`. -/
def initCaps : Caps := List.replicate MAX_V3CAPS none

/-- `lsi_v3_reset_caps`. -/
def resetCaps (caps : Caps) : Caps := caps.map fun _ => none

/-- `lsi_v3_want_cap`. -/
def wantCap (caps : Caps) (cap : Str) (musthave : Bool) (al : Alloc) : Bool × Caps × Alloc :=
  let i := caps.findIdx fun o => o.all (·.name = cap)
  let filled := caps.set i (some ⟨strNcpy cap MAX_V3CAPLEN, [], musthave, false, false⟩)
  match caps[i]? with
  | none => (false, caps, al)
  | some (some _) => (true, filled, al)
  | some none =>
    match malloc al with
    | (false, al) => (false, caps, al)
    | (true, al) => (true, filled, al)

/-- `lsi_v3_clear_cap`. -/
def clearCap (caps : Caps) (cap : Str) : Caps :=
  let cnt := caps.findIdx Option.isNone
  let i := caps.findIdx fun o => o.all (·.name = cap)
  match caps[i]? with
  | some (some _) => (caps.set i (caps.getD (cnt - 1) none)).set (cnt - 1) none
  | _ => caps

/-- What `lsi_v3_update_caps` does with a word of its line. -/
def noteCap (offered : Bool) (caps : Caps) (word : Str) : Caps :=
  let i := caps.findIdx fun o => o.any (·.name = word.takeWhile (· != 0x3d))
  match caps[i]? with
  | some (some cap) => caps.set i (some { cap with
      offered := offered || cap.offered
      enabled := !offered || cap.enabled
      adddata :=
        if 0x3d ∈ word then strNcpy (word.dropWhile (· != 0x3d)).tail MAX_V3CAPLEN
        else cap.adddata })
  | _ => caps

/-- `lsi_v3_update_caps`. -/
def updateCaps (caps : Caps) (capsline : Str) (offered : Bool) : Caps :=
  (capWords (strNcpy capsline MAX_V3CAPLINE)).foldl (noteCap offered) caps

/-- `lsi_v3_check_caps`. -/
def checkCaps (offered : Bool) : Caps → Bool
  | [] => true
  | none :: _ => true
  | some cap :: caps =>
    if cap.musthave && (offered && !cap.offered || !offered && !cap.enabled) then false
    else checkCaps offered caps

/-- The loop of `lsi_v3_mk_capreq`. -/
def catCaps (destsz : Nat) : Caps → Str → Bool → Str × Bool
  | [], dest, first => (dest, first)
  | none :: _, dest, first => (dest, first)
  | some cap :: caps, dest, first =>
    if cap.offered then
      let dest := if first then dest else strNcat dest [0x20] destsz
      catCaps destsz caps (strNcat dest cap.name destsz) false
    else catCaps destsz caps dest first

/-- `lsi_v3_mk_capreq`. -/
def mkCapreq (caps : Caps) (destsz : Nat) : Bool × Str :=
  let (dest, first) := catCaps destsz caps [] true
  (!first, dest)

inductive Op
  | want (cap : Str) (musthave : Bool)
  | clear (cap : Str)
  | reset
  | update (capsline : Str) (offered : Bool)

def Op.run (caps : Caps) (al : Alloc) : Op → Bool × Caps × Alloc
  | .want cap musthave => wantCap caps cap musthave al
  | .clear cap => (true, clearCap caps cap, al)
  | .reset => (true, resetCaps caps, al)
  | .update capsline offered => (true, updateCaps caps capsline offered, al)

def runAll : List Op → Caps → Alloc → List Bool × Caps × Alloc
  | [], caps, al => ([], caps, al)
  | op :: ops, caps, al =>
    let (ok, caps, al) := op.run caps al
    let (oks, caps, al) := runAll ops caps al
    (ok :: oks, caps, al)

/-- Which capabilities are wanted, and whether they are a must. -/
abbrev Wants := Str → Option Bool

def Op.on (w : Wants) : Op × Bool → Wants
  | (.want cap musthave, true) => Function.update w cap (some musthave)
  | (.clear cap, _) => Function.update w cap none
  | (.reset, _) => fun _ => none
  | _ => w

def Op.Short : Op → Prop
  | .want cap _ => cap.length < MAX_V3CAPLEN
  | _ => True

instance : DecidablePred Op.Short
  | .want cap _ => inferInstanceAs (Decidable (cap.length < MAX_V3CAPLEN))
  | .clear _ => .isTrue trivial
  | .reset => .isTrue trivial
  | .update _ _ => .isTrue trivial

def layout (es : List V3cap) : Caps := es.map some ++ List.replicate (MAX_V3CAPS - es.length) none

variable {es : List V3cap} {name : Str} {i : Nat} {al : Alloc}

section Layout

theorem layout_taken (hi : i < es.length) : (layout es)[i]? = some (some es[i]) := by
  rw [layout, List.getElem?_append_left (by rwa [List.length_map]), List.getElem?_map,
    List.getElem?_eq_getElem hi, Option.map_some]

theorem layout_free (h : es.length < MAX_V3CAPS) : (layout es)[es.length]? = some none := by
  rw [layout, List.getElem?_append_right (by rw [List.length_map]), List.length_map, Nat.sub_self,
    List.getElem?_replicate, if_pos (by omega)]

theorem layout_full (h : MAX_V3CAPS ≤ es.length) : (layout es)[es.length]? = none := by
  rw [layout, Nat.sub_eq_zero_of_le h, List.replicate_zero, List.append_nil]
  exact List.getElem?_eq_none (by rw [List.length_map])

theorem layout_set (hi : i < es.length) (x : V3cap) :
    (layout es).set i (some x) = layout (es.set i x) := by
  rw [layout, List.set_append_left _ _ (by rwa [List.length_map]), ← List.map_set, layout,
    List.length_set]

theorem layout_push (h : es.length < MAX_V3CAPS) (x : V3cap) :
    (layout es).set es.length (some x) = layout (es ++ [x]) := by
  obtain ⟨n, hn⟩ : ∃ n, MAX_V3CAPS - es.length = n + 1 := ⟨MAX_V3CAPS - es.length - 1, by omega⟩
  rw [layout, hn, List.set_append_right _ _ (by rw [List.length_map]), List.length_map,
    Nat.sub_self, List.replicate_succ, List.set_cons_zero, layout, List.length_append,
    List.length_singleton, ← Nat.sub_sub, hn, List.map_append, List.append_assoc]
  rfl

theorem layout_pop (hpos : 0 < es.length) (h : es.length ≤ MAX_V3CAPS) :
    (layout es).set (es.length - 1) none = layout es.dropLast := by
  rw [layout, set_last rfl hpos, layout, List.length_dropLast]
  congr 2
  omega

theorem findIdx_front {q : Option V3cap → Bool} (hq : q none = true) (es : List V3cap) (n : Nat) :
    (es.map some ++ List.replicate n none).findIdx q = es.findIdx fun cap => q (some cap) := by
  induction es with
  | nil =>
    cases n with
    | zero => rfl
    | succ n => rw [List.map_nil, List.nil_append, List.replicate_succ, List.findIdx_cons, hq]; rfl
  | cons e es ih => rw [List.map_cons, List.cons_append, List.findIdx_cons, List.findIdx_cons, ih]

theorem findIdx_layout (es : List V3cap) (name : Str) :
    (layout es).findIdx (fun o => o.all (·.name = name)) = es.findIdx (·.name = name) :=
  findIdx_front rfl es _

theorem count_layout (es : List V3cap) : (layout es).findIdx Option.isNone = es.length :=
  (findIdx_front rfl es _).trans (List.findIdx_eq_length_of_false fun _ _ => rfl)

theorem layout_compact (es : List V3cap) : Compact (layout es) := ⟨es, _, rfl⟩

theorem layout_reduce (es : List V3cap) : (layout es).reduceOption = es := reduce_front es _

theorem mem_layout {cap : V3cap} : some cap ∈ layout es ↔ cap ∈ es := by
  rw [← List.reduceOption_mem_iff, layout_reduce]

end Layout

section Updates

theorem findIdx_lt (h : ∃ cap ∈ es, cap.name = name) :
    es.findIdx (·.name = name) < es.length :=
  List.findIdx_lt_length.2 (h.imp fun _ hcap => ⟨hcap.1, decide_eq_true hcap.2⟩)

theorem findIdx_missing (h : ∀ cap ∈ es, cap.name ≠ name) :
    es.findIdx (·.name = name) = es.length :=
  List.findIdx_eq_length_of_false fun cap hcap => decide_eq_false (h cap hcap)

theorem updateCap_found (f : V3cap → V3cap) (hi : es.findIdx (·.name = name) < es.length) :
    updateCap name f es = es.set (es.findIdx (·.name = name))
      (f es[es.findIdx (·.name = name)]) := by
  induction es with
  | nil => cases hi
  | cons e es ih =>
    rw [updateCap]
    by_cases he : e.name = name
    · simp [List.findIdx_cons, he]
    · simp only [List.findIdx_cons, he, decide_false, cond_false, List.length_cons,
        Nat.add_lt_add_iff_right] at hi ⊢
      rw [if_neg not_false, ih hi]
      rfl

theorem updateCap_missing (f : V3cap → V3cap) (h : ∀ cap ∈ es, cap.name ≠ name) :
    updateCap name f es = es := by
  induction es with
  | nil => rfl
  | cons e es ih =>
    obtain ⟨he, hes⟩ := List.forall_mem_cons.1 h
    rw [updateCap, if_neg he, ih hes]

theorem updateCap_perm (hd : Distinct es) (h : ∃ cap ∈ es, cap.name = name) (x : V3cap) :
    (updateCap name (fun _ => x) es).Perm (x :: others es name) := by
  have hi := findIdx_lt h
  have hname : (es[es.findIdx (·.name = name)]).name = name :=
    of_decide_eq_true (List.findIdx_getElem (w := hi))
  have hall := perm_others hd (List.getElem_mem hi)
  rw [hname] at hall
  rw [updateCap_found _ hi]
  refine List.Perm.cons_inv (a := es[es.findIdx (·.name = name)]) ?_
  exact (set_swap hi x).trans ((hall.cons x).trans (List.Perm.swap _ _ _))

end Updates

section Calls

theorem wantCap_layout (es : List V3cap) (name : Str) (musthave : Bool) (al : Alloc) :
    wantCap (layout es) name musthave al =
      if es.any (·.name = name) then
        (true, layout (updateCap name (fun _ => fresh name musthave) es), al)
      else if MAX_V3CAPS ≤ es.length then (false, layout es, al)
      else ((malloc al).1, layout (if (malloc al).1 then es ++ [fresh name musthave] else es),
        (malloc al).2) := by
  rw [wantCap, findIdx_layout]
  by_cases hin : ∃ cap ∈ es, cap.name = name
  · have hi := findIdx_lt hin
    have hany : es.any (·.name = name) = true :=
      List.any_eq_true.2 (hin.imp fun _ hcap => ⟨hcap.1, decide_eq_true hcap.2⟩)
    rw [if_pos hany, layout_taken hi, updateCap_found _ hi, ← layout_set hi]
    rfl
  · have hno : ∀ cap ∈ es, cap.name ≠ name := fun cap hcap hname => hin ⟨cap, hcap, hname⟩
    have hany : es.any (·.name = name) = false :=
      List.any_eq_false.2 fun cap hcap => by simpa using hno cap hcap
    rw [hany, if_neg Bool.false_ne_true, findIdx_missing hno]
    by_cases hfull : MAX_V3CAPS ≤ es.length
    · rw [layout_full hfull, if_pos hfull]
    · have hlt := Nat.not_le.1 hfull
      rw [layout_free hlt, if_neg hfull]
      dsimp only
      rw [layout_push hlt]
      obtain ⟨ok, al⟩ := malloc al
      cases ok <;> rfl

theorem clearCap_layout (h : es.length ≤ MAX_V3CAPS) (name : Str) :
    clearCap (layout es) name = layout (cleared es name) := by
  rw [clearCap, findIdx_layout, count_layout]
  by_cases hin : ∃ cap ∈ es, cap.name = name
  · have hi := findIdx_lt hin
    have hpos := Nat.zero_lt_of_lt hi
    have hlast : es.length - 1 < es.length := by omega
    have hfind : es.findIdx? (·.name = name) = some (es.findIdx (·.name = name)) :=
      List.findIdx?_eq_some_iff_findIdx_eq.2 ⟨hi, rfl⟩
    have hend : es.getLast? = some es[es.length - 1] := by
      rw [List.getLast?_eq_getElem?, List.getElem?_eq_getElem hlast]
    rw [layout_taken hi, cleared, hfind, hend]
    dsimp only
    rw [List.getD_eq_getElem?_getD, layout_taken hlast, Option.getD_some, layout_set hi]
    have hpop := @layout_pop (es.set (es.findIdx (·.name = name)) es[es.length - 1])
    rw [List.length_set] at hpop
    exact hpop hpos h
  · have hno : ∀ cap ∈ es, cap.name ≠ name := fun cap hcap hname => hin ⟨cap, hcap, hname⟩
    rw [cleared_same hno, findIdx_missing hno]
    obtain hlt | hge := Nat.lt_or_ge es.length MAX_V3CAPS
    · rw [layout_free hlt]
    · rw [layout_full hge]

theorem resetCaps_layout (h : es.length ≤ MAX_V3CAPS) : resetCaps (layout es) = layout [] := by
  rw [resetCaps, List.map_const', layout, List.length_append, List.length_map,
    List.length_replicate,
    Nat.add_sub_of_le h]
  rfl

theorem noteCap_layout (offered : Bool) (es : List V3cap) (word : Str) :
    noteCap offered (layout es) word = layout (Capabilities.noteCap offered es word) := by
  rw [noteCap, Capabilities.noteCap]
  generalize word.takeWhile (· != 0x3d) = name
  by_cases hin : ∃ cap ∈ es, cap.name = name
  · have hi := findIdx_lt hin
    have hfind : (layout es).findIdx (fun o => o.any (·.name = name)) =
        es.findIdx (·.name = name) := by
      rw [layout, List.findIdx_append, List.findIdx_map, List.length_map]
      exact if_pos hi
    rw [hfind, layout_taken hi, updateCap_found _ hi]
    dsimp only
    rw [layout_set hi]
  · have hno : ∀ cap ∈ es, cap.name ≠ name := fun cap hcap hname => hin ⟨cap, hcap, hname⟩
    have hfind : (layout es).findIdx (fun o => o.any (·.name = name)) = (layout es).length := by
      refine List.findIdx_eq_length_of_false fun o ho => ?_
      cases o with
      | none => rfl
      | some cap => exact decide_eq_false (hno cap (mem_layout.1 ho))
    rw [hfind, updateCap_missing _ hno, List.getElem?_eq_none (Nat.le_refl _)]

theorem updateCaps_layout (es : List V3cap) (capsline : Str) (offered : Bool) :
    updateCaps (layout es) capsline offered = layout
      ((capWords (strNcpy capsline MAX_V3CAPLINE)).foldl (Capabilities.noteCap offered) es) := by
  rw [updateCaps]
  induction capWords (strNcpy capsline MAX_V3CAPLINE) generalizing es with
  | nil => rfl
  | cons word words ih => rw [List.foldl_cons, List.foldl_cons, noteCap_layout, ih]

end Calls

section Runs

variable {es' : List V3cap} {w : Wants} {musthave : Bool}

/-- The capabilities are those that are wanted, no more than there is room for. -/
structure Tracked (es : List V3cap) (w : Wants) : Prop where
  room : es.length ≤ MAX_V3CAPS
  distinct : Distinct es
  wants : ∀ name b, (name, b) ∈ wanted es ↔ w name = some b

theorem wanted_map (es : List V3cap) (x : Str × Bool) :
    x ∈ wanted es ↔ x ∈ es.map fun cap => (cap.name, cap.musthave) := List.mem_map.symm

theorem wanted_perm (h : es'.Perm es) (x : Str × Bool) : x ∈ wanted es' ↔ x ∈ wanted es := by
  rw [wanted_map, wanted_map, (h.map _).mem_iff]

theorem wanted_others {x : Str × Bool} : x ∈ wanted (others es name) ↔
    x ∈ wanted es ∧ x.1 ≠ name := by
  constructor
  · rintro ⟨cap, hcap, rfl⟩
    obtain ⟨hin, hne⟩ := mem_others.1 hcap
    exact ⟨⟨cap, hin, rfl⟩, hne⟩
  · rintro ⟨⟨cap, hin, rfl⟩, hne⟩
    exact ⟨cap, mem_others.2 ⟨hin, hne⟩, rfl⟩

theorem Distinct.others (hd : Distinct es) (name : Str) : Distinct (others es name) :=
  hd.sublist (List.filter_sublist.map _)

theorem Tracked.put (h : Tracked es w) (hp : es'.Perm (fresh name musthave :: others es name))
    (hroom : es'.length ≤ MAX_V3CAPS) (hshort : name.length < MAX_V3CAPLEN) :
    Tracked es' (Function.update w name (some musthave)) := by
  have hname : (fresh name musthave).name = name := List.take_of_length_le (by omega)
  refine ⟨hroom, ?_, fun n b => ?_⟩
  · refine (hp.map V3cap.name).nodup_iff.2 (List.nodup_cons.2 ⟨fun hin => ?_, ?_⟩)
    · obtain ⟨cap, hcap, heq⟩ := List.mem_map.1 hin
      exact (mem_others.1 hcap).2 (heq.trans hname)
    · exact Distinct.others h.distinct name
  · have hfirst : (n, b) ∈ wanted (fresh name musthave :: others es name) ↔
        (n, b) = (name, musthave) ∨ (n, b) ∈ wanted (others es name) := by
      rw [wanted_map, List.map_cons, List.mem_cons, hname, ← wanted_map]
      rfl
    rw [wanted_perm hp, hfirst, wanted_others, h.wants, Function.update_apply]
    by_cases hn : n = name
    · simp [hn, eq_comm]
    · simp [hn]

theorem Tracked.drop (h : Tracked es w) (hp : es'.Perm (others es name)) :
    Tracked es' (Function.update w name none) := by
  refine ⟨hp.length_eq ▸ Nat.le_trans (List.length_filter_le _ _) h.room, ?_, fun n b => ?_⟩
  · exact (hp.map V3cap.name).nodup_iff.2 (Distinct.others h.distinct name)
  · rw [wanted_perm hp, wanted_others, h.wants, Function.update_apply]
    by_cases hn : n = name <;> simp [hn]

theorem map_updateCap {β : Type} {g : V3cap → β} {f : V3cap → V3cap} (hg : ∀ cap, g (f cap) = g cap)
    (es : List V3cap) : (updateCap name f es).map g = es.map g := by
  induction es with
  | nil => rfl
  | cons e es ih =>
    rw [updateCap]
    split
    · rw [List.map_cons, List.map_cons, hg]
    · rw [List.map_cons, List.map_cons, ih]

theorem pairs_noteCap (offered : Bool) (es : List V3cap) (word : Str) :
    (Capabilities.noteCap offered es word).map (fun cap => (cap.name, cap.musthave)) =
      es.map fun cap => (cap.name, cap.musthave) := by
  rw [Capabilities.noteCap]
  apply map_updateCap
  intro cap
  rfl

theorem Tracked.note (h : Tracked es w) (offered : Bool) (word : Str) :
    Tracked (Capabilities.noteCap offered es word) w := by
  have hpairs := pairs_noteCap offered es word
  have hlen := congrArg List.length hpairs
  have hnames := congrArg (List.map Prod.fst) hpairs
  rw [List.length_map, List.length_map] at hlen
  rw [List.map_map, List.map_map] at hnames
  refine ⟨hlen ▸ h.room, ?_, fun n b => ?_⟩
  · exact (congrArg List.Nodup hnames).mpr h.distinct
  · rw [wanted_map, hpairs, ← wanted_map, h.wants]

theorem Tracked.update (h : Tracked es w) (words : List Str) (offered : Bool) :
    Tracked (words.foldl (Capabilities.noteCap offered) es) w := by
  induction words generalizing es with
  | nil => exact h
  | cons word words ih => exact ih (h.note offered word)

theorem others_missing (h : ¬es.any (·.name = name) = true) : others es name = es :=
  others_same fun cap hcap hname => h (List.any_eq_true.2 ⟨cap, hcap, decide_eq_true hname⟩)

/-- What a call does to the array is what its result says. -/
theorem run_tracked (h : Tracked es w) {op : Op} (hs : op.Short) (al : Alloc) :
    ∃ es', (op.run (layout es) al).2.1 = layout es' ∧
      Tracked es' (Op.on w (op, (op.run (layout es) al).1)) := by
  cases op with
  | want cap musthave =>
    rw [Op.run, wantCap_layout]
    split
    · next hany =>
      obtain ⟨c, hc, hname⟩ := List.any_eq_true.1 hany
      have hperm := updateCap_perm h.distinct ⟨c, hc, of_decide_eq_true hname⟩ (fresh cap musthave)
      refine ⟨_, rfl, h.put hperm ?_ hs⟩
      have hlen := (perm_others h.distinct hc).length_eq
      rw [of_decide_eq_true hname] at hlen
      rw [hperm.length_eq, List.length_cons, ← List.length_cons (a := c), ← hlen]
      exact h.room
    · next hany =>
      split
      · exact ⟨es, rfl, h⟩
      · next hfree =>
        cases malloc al with
        | mk ok al =>
          cases ok with
          | false => exact ⟨es, rfl, h⟩
          | true =>
            refine ⟨es ++ [fresh cap musthave], rfl, h.put ?_ ?_ hs⟩
            · rw [others_missing hany]
              exact List.perm_append_singleton _ _
            · rw [List.length_append, List.length_singleton]
              omega
  | clear cap =>
    exact ⟨_, clearCap_layout h.room cap, h.drop (cleared_perm h.distinct cap)⟩
  | reset =>
    refine ⟨[], resetCaps_layout h.room, Nat.zero_le _, List.nodup_nil, fun n b => ?_⟩
    exact iff_of_false (fun ⟨cap, hcap, _⟩ => List.not_mem_nil hcap) (fun hno => by cases hno)
  | update capsline offered =>
    exact ⟨_, updateCaps_layout es capsline offered, h.update _ offered⟩

theorem runAll_tracked (h : Tracked es w) {ops : List Op} (hs : ∀ op ∈ ops, op.Short) (al : Alloc) :
    ∃ es', (runAll ops (layout es) al).2.1 = layout es' ∧
      Tracked es' ((ops.zip (runAll ops (layout es) al).1).foldl Op.on w) := by
  induction ops generalizing es w al with
  | nil => exact ⟨es, rfl, h⟩
  | cons op ops ih =>
    obtain ⟨hop, hs⟩ := List.forall_mem_cons.1 hs
    obtain ⟨es₁, hrun, h₁⟩ := run_tracked h hop al
    obtain ⟨es', hruns, h'⟩ := ih h₁ hs (op.run (layout es) al).2.2
    rw [← hrun] at hruns h'
    exact ⟨es', hruns, h'⟩

end Runs

section Reads

def offers (es : List V3cap) : List Str := (es.filter V3cap.offered).map V3cap.name

theorem checkCaps_front (offered : Bool) (es : List V3cap) (n : Nat) :
    checkCaps offered (es.map some ++ List.replicate n none) =
      es.all fun cap =>
        !(cap.musthave && (offered && !cap.offered || !offered && !cap.enabled)) := by
  induction es with
  | nil => cases n <;> rfl
  | cons e es ih =>
    rw [List.map_cons, List.cons_append, checkCaps, ih, List.all_cons]
    cases e.musthave && (offered && !e.offered || !offered && !e.enabled) <;> rfl

theorem catCaps_front (destsz : Nat) (es : List V3cap) (n : Nat) (dest : Str) :
    catCaps destsz (es.map some ++ List.replicate n none) dest false =
      ((offers es).foldl (fun dest name => strNcat (strNcat dest [0x20] destsz) name destsz) dest,
        false) := by
  induction es generalizing dest with
  | nil => cases n <;> rfl
  | cons e es ih =>
    rw [List.map_cons, List.cons_append, catCaps, offers]
    cases ho : e.offered with
    | false => rw [if_neg Bool.false_ne_true, ih, List.filter_cons_of_neg (by simp [ho]), offers]
    | true =>
      rw [if_pos rfl, ih, List.filter_cons_of_pos ho, List.map_cons, List.foldl_cons, offers]; rfl

theorem mkCapreq_front (destsz : Nat) (es : List V3cap) (n : Nat) :
    mkCapreq (es.map some ++ List.replicate n none) destsz =
      (!(offers es).isEmpty, joinCaps destsz (offers es)) := by
  rw [mkCapreq]
  induction es with
  | nil => cases n <;> rfl
  | cons e es ih =>
    rw [List.map_cons, List.cons_append, catCaps, offers]
    cases ho : e.offered with
    | false => rwa [if_neg Bool.false_ne_true, List.filter_cons_of_neg (by simp [ho]), ← offers]
    | true =>
      rw [if_pos rfl, List.filter_cons_of_pos ho, List.map_cons, ← offers, joinCaps]
      dsimp only
      rw [if_pos rfl, catCaps_front]
      rfl

theorem strNcat_cut {n : Nat} (hn : 0 < n) (t s : Str) :
    strNcat (t.take (n - 1)) s n = (t ++ s).take (n - 1) := by
  have hlen : (t.take (n - 1)).length = min (n - 1) t.length := List.length_take
  rw [strNcat_take (by omega), List.take_append, List.take_take, Nat.min_self, hlen,
    List.take_append]
  congr 2
  omega

theorem foldl_cut {n : Nat} (hn : 0 < n) (names : List Str) (t : Str) :
    names.foldl (fun dest name => strNcat (strNcat dest [0x20] n) name n) (t.take (n - 1)) =
      (t ++ names.flatMap fun name => 0x20 :: name).take (n - 1) := by
  induction names generalizing t with
  | nil => rw [List.foldl_nil, List.flatMap_nil, List.append_nil]
  | cons name names ih =>
    rw [List.foldl_cons, strNcat_cut hn, strNcat_cut hn, ih, List.flatMap_cons, List.append_assoc,
      List.append_assoc]
    rfl

theorem intercalate_flatMap (name : Str) (names : List Str) :
    [0x20].intercalate (name :: names) = name ++ names.flatMap fun name => 0x20 :: name := by
  induction names generalizing name with
  | nil => rw [List.intercalate_singleton, List.flatMap_nil, List.append_nil]
  | cons name' names ih =>
    rw [List.intercalate_cons_cons, ih, List.flatMap_cons, List.append_assoc]
    rfl

/-- The names are joined by blanks, and what does not fit is cut off. -/
theorem joinCaps_cut {n : Nat} (hn : 0 < n) (names : List Str) :
    joinCaps n names = ([0x20].intercalate names).take (n - 1) := by
  cases names with
  | nil => rw [joinCaps, List.intercalate_nil, List.take_nil]
  | cons name names =>
    have hfirst := strNcat_cut hn [] name
    rw [List.take_nil, List.nil_append] at hfirst
    rw [joinCaps, hfirst, foldl_cut hn, intercalate_flatMap]

/-- The functions on the array are those on the list of what is in it. -/
theorem reads_refine (irc : Irc) (offered : Bool) (destsz : Nat) :
    checkCaps offered (layout irc.v3caps) = CoreHandlers.checkCaps irc offered ∧
      (mkCapreq (layout irc.v3caps) destsz).2 = Capabilities.mkCapreq irc destsz := by
  rw [layout, checkCaps_front, mkCapreq_front, mkCapreq_eq, offers]
  exact ⟨rfl, rfl⟩

theorem updates_refine (irc : Irc) (h : irc.v3caps.length ≤ MAX_V3CAPS) (name : Str)
    (musthave : Bool) :
    wantCap (layout irc.v3caps) name musthave irc.base.al =
      ((Capabilities.wantCap irc name musthave).1,
        layout (Capabilities.wantCap irc name musthave).2.v3caps,
        (Capabilities.wantCap irc name musthave).2.base.al) ∧
    clearCap (layout irc.v3caps) name = layout (Capabilities.clearCap irc name).v3caps ∧
    ∀ capsline offered, updateCaps (layout irc.v3caps) capsline offered =
      layout (Capabilities.updateCaps irc capsline offered).v3caps := by
  refine ⟨?_, ?_, updateCaps_layout irc.v3caps⟩
  · rw [wantCap_layout, Capabilities.wantCap]
    split
    · rfl
    · split
      · rfl
      · rw [Irc.malloc, Base.malloc]
        obtain ⟨ok, al⟩ := malloc irc.base.al
        cases ok <;> rfl
  · rw [clearCap_layout h, clearCap_eq]

end Reads

/-- After any calls, the capabilities that are wanted come first in the array, each of them once,
and nothing that stops at the first null pointer misses one. -/
theorem caps_compact (ops : List Op) (hs : ∀ op ∈ ops, op.Short) (al : Alloc) :
    let r := runAll ops initCaps al
    let caps := r.2.1
    Compact caps ∧ (caps.reduceOption.map V3cap.name).Nodup ∧
    (∀ name b, (∃ cap, some cap ∈ caps ∧ cap.name = name ∧ cap.musthave = b) ↔
      (ops.zip r.1).foldl Op.on (fun _ => none) name = some b) ∧
    (∀ offered, checkCaps offered caps = true ↔ ∀ cap, some cap ∈ caps → cap.musthave = true →
      (if offered then cap.offered else cap.enabled) = true) ∧
    ∀ destsz, 0 < destsz → mkCapreq caps destsz = (!(offers caps.reduceOption).isEmpty,
      ([0x20].intercalate (offers caps.reduceOption)).take (destsz - 1)) := by
  have hstart : Tracked [] fun _ => none :=
    ⟨Nat.zero_le _, List.nodup_nil, fun name b =>
      iff_of_false (fun ⟨_, hcap, _⟩ => List.not_mem_nil hcap) (fun hno => by cases hno)⟩
  obtain ⟨es, hrun, h⟩ := runAll_tracked hstart hs al
  dsimp only
  rw [show initCaps = layout [] from rfl, hrun, layout_reduce]
  refine ⟨layout_compact es, h.distinct, fun name b => ?_, fun offered => ?_, fun destsz hpos => ?_⟩
  · rw [← h.wants]
    constructor
    · rintro ⟨cap, hcap, rfl, rfl⟩
      exact ⟨cap, mem_layout.1 hcap, rfl⟩
    · rintro ⟨cap, hcap, heq⟩
      exact ⟨cap, mem_layout.2 hcap, (Prod.mk.inj heq).1, (Prod.mk.inj heq).2⟩
  · rw [layout, checkCaps_front, List.all_eq_true, ← layout]
    simp only [mem_layout]
    refine forall₂_congr fun cap _ => ?_
    cases offered <;> cases cap.musthave <;> simp
  · rw [layout, mkCapreq_front, joinCaps_cut hpos]

/-- A capability is replaced by the last one, and one cannot be added. -/
theorem caps_compact_moved :
    let ops := [Op.want (ascii "tls") true, .want (ascii "sasl") false, .clear (ascii "tls"),
      .want (ascii "tls") false]
    let r := runAll ops initCaps [true, true, false]
    Compact r.2.1 ∧ (r.2.1.reduceOption.map V3cap.name).Nodup ∧
      r.1 = [true, true, true, false] ∧ r.2.1.reduceOption.map V3cap.name = [ascii "sasl"] := by
  have h := caps_compact [Op.want (ascii "tls") true, .want (ascii "sasl") false,
    .clear (ascii "tls"), .want (ascii "tls") false] (by decide) [true, true, false]
  exact ⟨h.1, h.2.1, by decide +kernel, by decide +kernel⟩

end Srsirc.CapArray
