import Srsirc.MapAgreement
import Srsirc.TrackRule

namespace Srsirc.TrackMaps

open CharMap Dictionary HeapCells Message ServerInfo UserBase ChannelModes Fallible MapAgreement
open TrackRule

structure Suits (info : Info) (q : Str → Prop) : Prop where
  none : q []
  one : ∀ c ∈ info.m005modepfx.2, c ≠ 0 → q [c]
  updated : ∀ mode i enab s s', q s → strchr info.m005modepfx.1 mode = some i →
    updatedModepfx info s (info.m005modepfx.2.getD i 0) enab = some s' → q s'

theorem suits_any (info : Info) : Suits info fun _ => True :=
  ⟨trivial, fun _ _ _ => trivial, fun _ _ _ _ _ _ _ _ => trivial⟩

variable {κ : CMap → Prop} {q : Str → Prop} {b : Base} {info : Info}

theorem updateModepfx_fitted (info : Info) (c : Ptr) (h : Fitted κ q b) (nick : Str) {sym : UInt8}
    {enab : Bool}
    (hq : ∀ s s', q s → updatedModepfx info s sym enab = some s' → q s') :
    Ensures (updateModepfx info b c nick sym enab) (Fitted κ q) := by
  refine (chan_fitted h c).bind fun ch hch => ?_
  split
  · exact Ensures.ok h
  · split
    · exact Ensures.ok h
    · next m hget _ modepfx hmod =>
      have hput := hch.put (m := { m with modepfx }) (hq _ _ (hch.get hget) hmod) nick []
      exact Ensures.ok
        (@Fitted.setChan _ _ _ h { ch with memb := ch.memb.store nick { m with modepfx } } hput c)

theorem Marked.suits {mpfx : Str} (hm : Marked info mpfx) (hs : Suits info q) :
    q (strNcpy mpfx MAX_MODEPFX) := by
  obtain rfl | ⟨c, hc, hne, rfl⟩ := hm
  · exact hs.none
  · exact hs.one c hc hne

theorem fitted_preserves (hcm : κ info.casemap) (hs : Suits info q) :
    Preserves info (Fitted κ q) where
  al al h := h.al al
  endofnames _ h := ⟨h.chans, h.users, h.memb⟩
  chan h hch hm _ _ := h.changed (chan_fitted h _ _ hch) hm _
  user h _ _ _ _ _ := ⟨h.chans, h.users, h.memb⟩
  addChan name h := addChan_fitted h hcm name
  dropChan c h := dropChan_fitted h c
  addMemb c p _ hm h := addMemb_fitted h c p (Marked.suits hm hs)
  dropMemb c p purge h := dropMemb_fitted h c p purge
  clearMemb c h := clearMemb_fitted h c
  touchUser ident h := touchUser_fitted h ident
  addUser ident h := addUser_fitted h ident
  dropUser p h := dropUser_fitted h p
  renameUser ident newnick h := renameUser_fitted h info.casemap ident newnick
  updateModepfx c nick enab hi h := updateModepfx_fitted info c h nick fun s s' hq hmod =>
    hs.updated _ _ enab s s' hq hi hmod

end Srsirc.TrackMaps
