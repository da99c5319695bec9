import Outline.Proofs.Arrange.Books
import Outline.Proofs.Manager.Linked

/-!
What a change does to the books of an outline: it touches every book whose links it changes, and
when it removes no page from above others, it leaves no page behind.
-/
namespace Outline.Manager
set_option autoImplicit false

/-- Whether a change removes no page from above others, other than a book root. -/
def Mutation.LeavesNone (t : Table) : Mutation → Prop
  | .delete nid => ∀ l ∈ t.stored? nid, l.isBookRoot = true ∨ ∀ r ∈ t.rows, r.pid ≠ .int nid
  | _ => True

instance (t : Table) : ∀ c : Mutation, Decidable (c.LeavesNone t)
  | .delete nid =>
    inferInstanceAs (Decidable (∀ l ∈ t.stored? nid,
      l.isBookRoot = true ∨ ∀ r ∈ t.rows, r.pid ≠ .int nid))
  | .addRoot .. | .addChild .. | .move .. | .update .. => isTrue trivial

section Step

variable {t t' : Table} {c : Mutation} {touched : List PageId} {b : PageId}

/-- A step leaves alone every book that it does not touch. -/
theorem Step.agreeOn (hstep : Step t c touched t') (h : t.Sound) (hlink : t.Linked)
    (hb : b ∉ touched) : t.AgreeOn b t' := by
  cases hstep with
  | nothing => exact .refl b t
  | @started nid weight positive missing =>
    rw [List.mem_singleton] at hb
    exact Table.agreeOn_put (Link.sound_root positive false weight) missing (Ne.symm hb)
  | @placed parent nid weight positive missing stored fits =>
    rw [List.mem_singleton] at hb
    have hs := sound_placedChild h positive missing stored fits weight
    have hchild := (h.of_stored? stored).1.along_child nid false weight
    have hput : t.AgreeOn b (t.put (.ofLink (.along (parent.path ++ [nid]) false weight))) := by
      refine Table.agreeOn_put hs ?_ ?_
      · rw [hchild]
        exact missing
      · rw [hchild]
        exact Ne.symm hb
    refine hput.trans (Table.agreeOn_setHasChildren (h.put hs) true ?_)
    intro p hp
    rw [Table.stored?_put hs, hchild, if_neg (Table.ne_of_stored? stored missing), stored] at hp
    cases hp
    exact Ne.symm hb
  | weighed stored =>
    rw [List.mem_singleton] at hb
    exact Table.agreeOn_weigh h stored _ (Ne.symm hb)
  | moved stored leaves rehung => exact rehung.agreeOn h stored hlink hb
  | removed asked stored promoted => exact Arrange.removed_agreeOn h stored hlink promoted hb

/-- Where no page is left behind, no id is named that could be stored anew. -/
theorem namesNoNew_of_closed (h : t.Sound) (hc : t.Closed) (h' : t'.Sound) : NamesNoNew t t' := by
  intro r hr hmiss q hq hqr
  obtain ⟨l, hl, rfl⟩ := h'.mem_rows_iff.1 hr
  obtain ⟨k, hk, rfl⟩ := h.mem_rows_iff.1 hq
  have hpid : k.pid = l.nid := Cell.int.inj hqr
  have hnone : t.stored? l.nid = none := (Table.stored?_eq_none_iff h).2 hmiss
  have hparent := hc k hk (by rw [hpid]; exact (h'.of_stored? hl).1.nid_ne_zero)
  rw [hpid, hnone] at hparent
  cases hparent

/-- A step leaves no page behind when it removes none from above others. -/
theorem Step.closed (hstep : Step t c touched t') (h : t.Whole) (hclean : c.LeavesNone t) :
    t'.Closed := by
  have hsound := h.sound
  cases hstep with
  | nothing => exact h.closed
  | started positive missing =>
    exact h.closed.put_new (Link.sound_root positive false _) fun hpid => absurd rfl hpid
  | @placed parent nid weight positive missing stored fits =>
    have hs := sound_placedChild hsound positive missing stored fits weight
    refine (h.closed.put_new hs fun _ => ?_).setHasChildren (hsound.put hs) _ _
    rw [(hsound.of_stored? stored).1.along_child, stored]
    rfl
  | weighed stored => exact h.closed.weigh hsound stored _
  | moved stored leaves rehung => exact rehung.closed hsound stored h.closed
  | @removed old touched t₁ asked stored promoted =>
    rw [asked] at hclean
    refine Arrange.removed_closed h stored ?_ promoted
    rcases hclean old stored with hroot | hnone
    · exact .inl hroot
    · refine .inr fun k hk hkp => hnone (.ofLink k) (hsound.mem_rows_iff.2 ⟨k, hk, rfl⟩) ?_
      exact congrArg Cell.int hkp

theorem Step.whole (hstep : Step t c touched t') (h : t.Whole) (hclean : c.LeavesNone t) :
    t'.Whole := by
  have h' := hstep.sound h.sound
  exact ⟨h', hstep.linked h.sound h.linked (namesNoNew_of_closed h.sound h.closed h'),
    hstep.closed h hclean⟩

end Step

end Outline.Manager
