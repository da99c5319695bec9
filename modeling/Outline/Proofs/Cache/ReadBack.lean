import Outline.Proofs.Cache.Entries
import Outline.Proofs.Forest.Nesting

/-!
Forests are read back from the cache they were put into, up to the nesting that a reader allows.
-/
namespace Outline.Cache
set_option autoImplicit false

theorem forestAt_fst (c : Cache) (key : String) :
    (c.forestAt key).1 = (c.get? key).bind BookForest.decode? := by
  unfold forestAt
  cases c.get? key with
  | none => rfl
  | some bytes =>
    cases hf : BookForest.decode? bytes with
    | none => simp [hf]
    | some f => simp [hf]

theorem forestAt_putForest (c : Cache) (key : String) (bid : PageId) (f : BookForest) :
    ((c.putForest key bid f).forestAt key).1 = BookForest.decode? f.encode := by
  rw [forestAt_fst, putForest, get?_set, if_pos rfl, Option.bind_some]

/-- A forest that was put under a key is found there as it was when it has at most 62 levels, and is
missing when it has more. Whatever forest is found in a cache is found again where it is put. -/
theorem putForest_reads_back :
    (∀ (c : Cache) (key : String) (bid : PageId) (f : BookForest),
      (f.All fun item => item.link.depth ≤ Word.maxUnsigned32) →
      ((c.putForest key bid f).forestAt key).1 = if f.height ≤ 62 then some f else none) ∧
    ∀ (c : Cache) (key : String) (f : BookForest), (c.forestAt key).1 = some f →
      ∀ (c' : Cache) (key' : String) (bid : PageId),
        ((c'.putForest key' bid f).forestAt key').1 = some f := by
  constructor
  · intro c key bid f hdepths
    rw [forestAt_putForest]
    split
    · next h => exact BookForest.decode?_encode f hdepths h
    · next h => exact BookForest.decode?_encode_of_lt hdepths (Nat.lt_of_not_le h)
  · intro c key f h c' key' bid
    rw [forestAt_fst] at h
    obtain ⟨bytes, _, hf⟩ := Option.bind_eq_some_iff.1 h
    obtain ⟨hlevels, hdepths⟩ := BookForest.decode?_within hf
    rw [forestAt_putForest, BookForest.decode?_encode f hdepths hlevels]

/-- A page of extreme numbers, whose title needs escapes. -/
def extremePage : Item where
  link := ⟨Int64.minValue, Int64.maxValue, -1, true, Int32.minValue, Word.maxUnsigned32,
    Chain.ofList [Int64.minValue, 0, Int64.maxValue]⟩
  title := some "\"\\\n\t\x01/é\u2028😀"
  active := true

/-- That page over and over, each below the one before. -/
def tower : Nat → BookForest
  | 0 => .nil
  | n + 1 => .cons extremePage (tower n) .nil

theorem height_tower (n : Nat) : (tower n).height = n := by
  induction n with
  | zero => rfl
  | succ n ih => rw [tower, Forest.height, ih, Forest.height, Nat.max_eq_left (Nat.zero_le _)]

theorem all_tower {p : Item → Prop} (h : p extremePage) (n : Nat) : (tower n).All p := by
  induction n with
  | zero => trivial
  | succ n ih => exact ⟨h, ih, trivial⟩

/-- Items and links as lists, with blanks, unlike what is written. -/
def listForm : Bytes :=
  Text.utf8 "[ [[7,7,0,false,-5,1,[7,0,0,0,0,0,0,0,0]], null, true,\n []] ]"

/-- The forest of those bytes. -/
def listForest : BookForest :=
  .cons ⟨⟨7, 7, 0, false, -5, 1, Chain.ofList [7]⟩, none, true⟩ .nil .nil

/-- The 62nd level is the last one that is kept, and lists are read as well as objects. -/
theorem putForest_reads_back_tower :
    (((empty.putForest "tower" 1 (tower 62)).forestAt "tower").1 = some (tower 62) ∧
      ((empty.putForest "tower" 1 (tower 63)).forestAt "tower").1 = none) ∧
    ((empty.set "lists" listForm []).forestAt "lists").1 = some listForest ∧
    ((empty.putForest "objects" 7 listForest).forestAt "objects").1 = some listForest := by
  obtain ⟨hput, hfound⟩ := putForest_reads_back
  have hdepths (n : Nat) := all_tower (p := fun item => item.link.depth ≤ Word.maxUnsigned32)
    (Nat.le_refl _) n
  have hlists : ((empty.set "lists" listForm []).forestAt "lists").1 = some listForest := by
    rw [forestAt_fst, get?_set, if_pos rfl, Option.bind_some]
    decide +kernel
  refine ⟨⟨?_, ?_⟩, hlists, hfound _ _ _ hlists _ _ _⟩
  · rw [hput _ _ _ _ (hdepths 62), height_tower, if_pos (by decide)]
  · rw [hput _ _ _ _ (hdepths 63), height_tower, if_neg (by decide)]

end Outline.Cache
