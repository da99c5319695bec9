import Outline.Proofs.Cache.Untitled
import Outline.Proofs.Manager.Run
import Outline.Proofs.Manager.SharedKeys

/-!
What operations leave behind, whoever looks and whatever is known about pages.

Changes never ask what is known about pages. Reads do, but only for what they tell, after the forest
they want was kept. So two reads that differ in who looks leave the same rows and the same cache.
-/
namespace Outline.Manager
set_option autoImplicit false

/-- The manager with other content. -/
def learn (m : Manager) (content : Content) : Manager := { m with content := content }

/-- The end of an operation, with other content. -/
def relearn {α : Type} (content : Content) :
    EStateM.Result OutlineFault Manager α → EStateM.Result OutlineFault Manager α
  | .ok a m => .ok a (m.learn content)
  | .error refusal m => .error refusal (m.learn content)

/-- Whether an operation does the same whatever the content is, and adds no titles to the cache. -/
structure Impersonal {α : Type} (operation : Managed α) : Prop where
  relearned : ∀ (m : Manager) content, operation (m.learn content) = relearn content (operation m)
  untitled : ∀ m : Manager, m.cache.AddsUntitled (after operation m).cache

/-- Whether two operations leave the same behind, but for the content, on managers that are the same
but for the content, and add no titles to the cache. What they tell may differ. -/
structure Leaves {α β : Type} (operation : Managed α) (other : Managed β) : Prop where
  relearned : ∀ (m : Manager) content, after other (m.learn content) = (after operation m).learn content
  untitled : ∀ m : Manager, m.cache.AddsUntitled (after operation m).cache

section Impersonal

variable {α β : Type} {operation : Managed α} {next : α → Managed β}

theorem after_bind_of_ok {m m' : Manager} {a : α} (h : operation m = .ok a m') :
    after (operation >>= next) m = after (next a) m' := by
  rw [after, bind_of_ok h]
  rfl

theorem impersonal_pure (a : α) : Impersonal (pure a : Managed α) :=
  ⟨fun _ _ => rfl, fun m => .refl m.cache⟩

theorem impersonal_look (f : Table → Except StoreFault α) : Impersonal (look f) := by
  constructor
  · intro m content
    cases hf : f m.table with
    | ok a => rw [look_of_ok hf, look_of_ok (m := m.learn content) hf]; rfl
    | error fault => rw [look_of_error hf, look_of_error (m := m.learn content) hf]; rfl
  · intro m
    cases hf : f m.table with
    | ok a => rw [after_of_ok (look_of_ok hf)]; exact .refl m.cache
    | error fault => rw [after_of_error (look_of_error hf)]; exact .refl m.cache

theorem untitled_bind (h : ∀ m : Manager, m.cache.AddsUntitled (after operation m).cache)
    (hnext : ∀ a (m : Manager), m.cache.AddsUntitled (after (next a) m).cache) (m : Manager) :
    m.cache.AddsUntitled (after (operation >>= next) m).cache := by
  have hfirst := h m
  cases hm : operation m with
  | ok a s =>
    rw [after_of_ok hm] at hfirst
    rw [after_bind_of_ok hm]
    exact hfirst.trans (hnext a s)
  | error refusal s =>
    rw [after_of_error hm] at hfirst
    rw [after_of_error (bind_of_error hm)]
    exact hfirst

theorem Impersonal.bind (h : Impersonal operation) (hnext : ∀ a, Impersonal (next a)) :
    Impersonal (operation >>= next) := by
  constructor
  · intro m content
    have hother := h.relearned m content
    cases hm : operation m with
    | ok a s =>
      rw [hm] at hother
      rw [bind_of_ok hm, bind_of_ok hother, (hnext a).relearned]
    | error refusal s =>
      rw [hm] at hother
      rw [bind_of_error hm, bind_of_error hother]
      rfl
  · exact untitled_bind h.untitled fun a => (hnext a).untitled

theorem impersonal_atomically (work : TableWork α) : Impersonal (atomically none work) := by
  constructor
  · intro m content
    cases hm : m.inTransaction with
    | true => rw [atomically_of_inside hm, atomically_of_inside (m := m.learn content) hm]; rfl
    | false =>
      cases hw : work m.table with
      | ok a t =>
        rw [atomically_of_ok hm hw, atomically_of_ok (m := m.learn content) hm hw]
        rfl
      | error refusal t =>
        rw [atomically_of_error hm hw, atomically_of_error (m := m.learn content) hm hw]
        rfl
  · intro m
    cases hm : m.inTransaction with
    | true => rw [after_of_error (atomically_of_inside hm)]; exact .refl m.cache
    | false =>
      cases hw : work m.table with
      | ok a t => rw [after_of_ok (atomically_of_ok hm hw)]; exact .refl m.cache
      | error refusal t => rw [after_of_error (atomically_of_error hm hw)]; exact .refl m.cache

theorem Impersonal.told (h : Impersonal operation) (change : Change) (nid : PageId) :
    Impersonal (told change nid operation) := by
  constructor
  · intro m content
    unfold Manager.told
    rw [h.relearned]
    cases operation m <;> rfl
  · intro m
    have hcache : (after (Manager.told change nid operation) m).cache =
        (after operation m).cache := by
      unfold after Manager.told
      cases operation m <;> rfl
    rw [hcache]
    exact h.untitled m

theorem impersonal_forget (bids : List PageId) : Impersonal (forget bids) :=
  ⟨fun _ _ => rfl, fun m => Cache.addsUntitled_dropBooks m.cache bids⟩

/-- Whatever rows can be read, a forest made of them is kept without titles. -/
theorem untitled_select {t : Table} {q : Query} {rows : List Link} (h : t.select q = .ok rows)
    (active : PageId → Bool) (minDepth : Nat) :
    Cache.Untitled (BookForest.build active minDepth rows).encode :=
  Cache.untitled_encode (decode?_encode_select h active minDepth)
    (BookForest.untitled_build active minDepth rows)

theorem impersonal_keptForest (bid : PageId) (focus : Option Link) (d : Option Nat) :
    Impersonal (keptForest bid focus d) := by
  constructor
  · intro m content
    have hfound : ((m.learn content).cache.forestAt ((m.learn content).forestKey bid focus d)).1 =
        (m.cache.forestAt (m.forestKey bid focus d)).1 := rfl
    have hselect : (m.learn content).table.select (bookQuery bid focus d) =
        m.table.select (bookQuery bid focus d) := rfl
    rw [keptForest_eq, keptForest_eq, hfound, hselect]
    cases (m.cache.forestAt (m.forestKey bid focus d)).1 with
    | some f => rfl
    | none => cases m.table.select (bookQuery bid focus d) <;> rfl
  · intro m
    unfold after
    rw [keptForest_eq]
    cases (m.cache.forestAt (m.forestKey bid focus d)).1 with
    | some f => exact .refl m.cache
    | none =>
      cases hselect : m.table.select (bookQuery bid focus d) with
      | ok rows => exact Cache.addsUntitled_putForest _ _ (untitled_select hselect _ _)
      | error fault => exact .refl m.cache

theorem impersonal_keptSubtree (l : Link) : Impersonal (keptSubtree l) := by
  constructor
  · intro m content
    have hfound : (m.learn content).cache.subtreeOf (m.learn content).settings.locale l.nid =
        m.cache.subtreeOf m.settings.locale l.nid := rfl
    have hselect : (m.learn content).table.select ((Query.book l.bid).within l) =
        m.table.select ((Query.book l.bid).within l) := rfl
    rw [keptSubtree_eq, keptSubtree_eq, hfound, hselect]
    cases (m.cache.subtreeOf m.settings.locale l.nid).1 with
    | some f => rfl
    | none => cases m.table.select ((Query.book l.bid).within l) <;> rfl
  · intro m
    unfold after
    rw [keptSubtree_eq]
    cases (m.cache.subtreeOf m.settings.locale l.nid).1 with
    | some f => exact .refl m.cache
    | none =>
      cases hselect : m.table.select ((Query.book l.bid).within l) with
      | ok rows => exact Cache.addsUntitled_putSubtree _ _ (untitled_select hselect _ _)
      | error fault => exact .refl m.cache

end Impersonal

section Mutations

theorem impersonal_addRoot (nid : PageId) (weight : Int32) : Impersonal (addRoot nid weight) :=
  ((impersonal_atomically _).told .save nid).bind fun _ =>
    (impersonal_forget _).bind fun _ => impersonal_pure _

theorem impersonal_addChild (nid pid : PageId) (weight : Int32) :
    Impersonal (addChild nid pid weight) :=
  ((impersonal_atomically _).told .save nid).bind fun _ =>
    (impersonal_forget _).bind fun _ => impersonal_pure _

theorem impersonal_move (nid pid : PageId) (weight : Option Int32) :
    Impersonal (move nid pid weight) :=
  ((impersonal_atomically _).told .move nid).bind fun _ =>
    (impersonal_forget _).bind fun _ => impersonal_pure _

theorem impersonal_delete (nid : PageId) : Impersonal (delete nid) :=
  ((impersonal_atomically _).told .delete nid).bind fun _ => impersonal_forget _

theorem impersonal_update (request : Request) : Impersonal (update request) := by
  unfold update updateAgainst
  cases request.bid? with
  | none => exact impersonal_pure _
  | some bid =>
    refine (impersonal_look _).bind fun found => ?_
    split
    · exact (impersonal_move _ _ _).bind fun _ => impersonal_pure _
    · split
      · exact (impersonal_addRoot _ _).bind fun _ => impersonal_pure _
      · exact (impersonal_addChild _ _ _).bind fun _ => impersonal_pure _

theorem Mutation.impersonal (c : Mutation) : Impersonal c.perform := by
  cases c with
  | addRoot nid weight => exact (impersonal_addRoot nid weight).bind fun _ => impersonal_pure _
  | addChild nid pid weight =>
    exact (impersonal_addChild nid pid weight).bind fun _ => impersonal_pure _
  | move nid pid weight => exact (impersonal_move nid pid weight).bind fun _ => impersonal_pure _
  | update request => exact impersonal_update request
  | delete nid => exact (impersonal_delete nid).bind fun _ => impersonal_pure _

end Mutations

section Leaves

variable {α β γ δ : Type} {operation : Managed α} {other : Managed β} {next : α → Managed γ}
  {following : α → Managed δ}

theorem Impersonal.leaves (h : Impersonal operation) : Leaves operation operation := by
  refine ⟨fun m content => ?_, h.untitled⟩
  rw [after, h.relearned, after]
  cases operation m <;> rfl

theorem leaves_pure (a : α) (b : β) : Leaves (pure a) (pure b) :=
  ⟨fun _ _ => rfl, fun m => .refl m.cache⟩

/-- What follows may depend on what was found, and may tell different things. -/
theorem Impersonal.bind_leaves (h : Impersonal operation)
    (hnext : ∀ a, Leaves (next a) (following a)) :
    Leaves (operation >>= next) (operation >>= following) := by
  constructor
  · intro m content
    have hother := h.relearned m content
    cases hm : operation m with
    | ok a s =>
      rw [hm] at hother
      rw [after_bind_of_ok hm, after_bind_of_ok hother, (hnext a).relearned]
    | error refusal s =>
      rw [hm] at hother
      rw [after_of_error (bind_of_error hm), after_of_error (bind_of_error hother)]
  · exact untitled_bind h.untitled fun a => (hnext a).untitled

theorem leaves_get_bind {next : Manager → Managed α} {following : Manager → Managed β}
    (h : ∀ m m', Leaves (next m) (following m')) : Leaves (get >>= next) (get >>= following) :=
  ⟨fun m content => (h m (m.learn content)).relearned m content, fun m => (h m m).untitled m⟩

theorem after_bind_still (h : ∀ a m, after (next a) m = m) (m : Manager) :
    after (operation >>= next) m = after operation m := by
  cases hm : operation m with
  | ok a s => rw [after_bind_of_ok hm, h, after_of_ok hm]
  | error refusal s => rw [after_of_error (bind_of_error hm), after_of_error hm]

/-- Nothing is changed by what makes an answer of what was found. -/
theorem Leaves.bind_still {following : β → Managed δ} (h : Leaves operation other)
    (hnext : ∀ a m, after (next a) m = m) (hfollowing : ∀ b m, after (following b) m = m) :
    Leaves (operation >>= next) (other >>= following) := by
  constructor
  · intro m content
    rw [after_bind_still hnext, after_bind_still hfollowing, h.relearned]
  · intro m
    rw [after_bind_still hnext]
    exact h.untitled m

theorem Leaves.map (h : Leaves operation other) (g : α → γ) (k : β → δ) :
    Leaves (operation >>= fun a => pure (g a)) (other >>= fun b => pure (k b)) :=
  h.bind_still (fun _ _ => rfl) fun _ _ => rfl

end Leaves

section Reads

/-- The read, made for another viewer. -/
def Read.viewedBy (viewer : Viewer) : Read → Read
  | .books _ => .books viewer
  | .forest bid focus depthLimit _ => .forest bid focus depthLimit viewer
  | .around nid _ => .around nid viewer
  | .subtree nid _ => .subtree nid viewer
  | .contents bid depthLimit exclude _ => .contents bid depthLimit exclude viewer
  | r => r

variable (viewer viewer' : Viewer)

theorem leaves_books : Leaves (allBooks viewer) (allBooks viewer') :=
  (impersonal_look _).bind_leaves fun _ => (impersonal_look _).bind_leaves fun _ =>
    leaves_get_bind fun _ _ => leaves_pure _ _

theorem leaves_forest (bid : PageId) (focus : Option PageId) (d : Option Nat) :
    Leaves (bookForest bid focus d viewer) (bookForest bid focus d viewer') := by
  refine leaves_get_bind fun m m' => ?_
  cases focus with
  | none => exact (impersonal_keptForest _ _ _).bind_leaves fun _ => leaves_pure _ _
  | some nid =>
    refine (impersonal_look _).bind_leaves fun found => ?_
    cases found with
    | none => exact leaves_pure _ _
    | some l => exact (impersonal_keptForest _ _ _).bind_leaves fun _ => leaves_pure _ _

theorem leaves_around (nid : PageId) : Leaves (pagesAround nid viewer) (pagesAround nid viewer') := by
  refine (impersonal_look _).bind_leaves fun found => ?_
  cases found with
  | none => exact leaves_pure _ _
  | some l =>
    exact (impersonal_keptForest _ _ _).bind_leaves fun _ =>
      leaves_get_bind fun _ _ => leaves_pure _ _

theorem leaves_subtree (nid : PageId) : Leaves (subtree nid viewer) (subtree nid viewer') := by
  refine (impersonal_look _).bind_leaves fun found => ?_
  cases found with
  | none => exact leaves_pure _ _
  | some l =>
    exact (impersonal_keptSubtree _).bind_leaves fun _ =>
      leaves_get_bind fun _ _ => leaves_pure _ _

theorem leaves_contents (bid : PageId) (depthLimit : Nat) (exclude : List PageId) :
    Leaves (contents bid depthLimit exclude viewer) (contents bid depthLimit exclude viewer') :=
  (leaves_forest viewer viewer' bid none none).bind_still (fun _ _ => rfl) fun _ _ => rfl

theorem impersonal_deepestParent (l : Link) : Impersonal (deepestParent l) := by
  unfold deepestParent
  split
  · exact (impersonal_look _).bind fun _ => impersonal_pure _
  · exact (impersonal_pure _).bind fun _ => impersonal_pure _

/-- A read leaves the same behind for every viewer. -/
theorem Read.leaves (r : Read) : Leaves r.perform (r.viewedBy viewer).perform := by
  cases r with
  | link nid => exact (impersonal_look _).leaves.map _ _
  | links nids => exact (impersonal_look _).leaves.map _ _
  | books viewer' => exact (leaves_books viewer' viewer).map _ _
  | forest bid focus d viewer' => exact (leaves_forest viewer' viewer bid focus d).map _ _
  | around nid viewer' => exact (leaves_around viewer' viewer nid).map _ _
  | subtree nid viewer' => exact (leaves_subtree viewer' viewer nid).map _ _
  | contents bid depthLimit exclude viewer' =>
    exact (leaves_contents viewer' viewer bid depthLimit exclude).map _ _
  | deepestParent l => exact (impersonal_deepestParent l).leaves.map _ _

end Reads

end Outline.Manager
