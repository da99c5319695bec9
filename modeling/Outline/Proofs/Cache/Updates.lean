import Mathlib.Data.List.Induction
import Mathlib.Data.List.Nodup
import Outline.Proofs.Cache.Pointers

/-!
What a cache holds after any updates.

The entries and the index are written apart from each other. An entry that is removed, or dropped by
one of its tags, stays in the index under its other tags, and goes with them when its key has been
set again. Still the history alone says what is in the index: a key is under a tag when it was set
with it since the tag was last invalidated.
-/
namespace Outline.Cache
set_option autoImplicit false

/-- What is done with the entries of a cache. -/
inductive Update where
  | set (key : String) (value : Bytes) (tags : List String)
  | remove (key : String)
  | invalidate (tag : String)

/-- Does an update. -/
def Update.apply (c : Cache) : Update → Cache
  | set key value tags => c.set key value tags
  | remove key => c.remove key
  | invalidate tag => c.invalidate tag

/-- The cache after some updates of an empty one. -/
def updated (us : List Update) : Cache := us.foldl Update.apply .empty

/-- Whether a key was set with a tag since the tag was last invalidated. -/
def SetUnder (us : List Update) (tag key : String) : Prop :=
  ∃ before value tags since, us = before ++ .set key value tags :: since ∧ tag ∈ tags ∧
    .invalidate tag ∉ since

/-- Whether an update that comes after some others ends what is under a key: it sets the key anew,
removes it, or invalidates a tag that the key was set with. -/
def Update.Ends (us : List Update) (key : String) : Update → Prop
  | set key' _ _ => key' = key
  | remove key' => key' = key
  | invalidate tag => SetUnder us tag key

/-- Whether a value was set under a key, and no update since has ended that. -/
def LastSet (us : List Update) (key : String) (value : Bytes) : Prop :=
  ∃ before tags since, us = before ++ .set key value tags :: since ∧
    ∀ next u rest, since = next ++ u :: rest →
      ¬ u.Ends (before ++ .set key value tags :: next) key

section History

variable {us : List Update} {u : Update} {tag key : String} {value : Bytes}

/-- What stands somewhere in a history is the latest update or stands before it. -/
theorem concat_eq_append_cons {before since : List Update} {x : Update}
    (h : us ++ [u] = before ++ x :: since) :
    since = [] ∧ us = before ∧ u = x ∨
      ∃ earlier, since = earlier ++ [u] ∧ us = before ++ x :: earlier := by
  rcases List.eq_nil_or_concat since with rfl | ⟨earlier, last, rfl⟩
  · obtain ⟨hus, hu⟩ := List.append_inj' h rfl
    exact .inl ⟨rfl, hus, List.head_eq_of_cons_eq hu⟩
  · rw [List.concat_eq_append, ← List.cons_append, ← List.append_assoc] at h
    obtain ⟨hus, hu⟩ := List.append_inj' h rfl
    rw [List.concat_eq_append, List.head_eq_of_cons_eq hu]
    exact .inr ⟨earlier, rfl, hus⟩

theorem setUnder_concat :
    SetUnder (us ++ [u]) tag key ↔
      (∃ value tags, u = .set key value tags ∧ tag ∈ tags) ∨
        SetUnder us tag key ∧ u ≠ .invalidate tag := by
  constructor
  · rintro ⟨before, value, tags, since, hus, htag, hsince⟩
    rcases concat_eq_append_cons hus with ⟨_, _, hu⟩ | ⟨earlier, rfl, rfl⟩
    · exact .inl ⟨value, tags, hu, htag⟩
    · rw [List.mem_append, List.mem_singleton, not_or] at hsince
      exact .inr ⟨⟨before, value, tags, earlier, rfl, htag, hsince.1⟩, Ne.symm hsince.2⟩
  · rintro (⟨value, tags, rfl, htag⟩ | ⟨⟨before, value, tags, since, rfl, htag, hsince⟩, hu⟩)
    · exact ⟨us, value, tags, [], rfl, htag, List.not_mem_nil⟩
    · refine ⟨before, value, tags, since ++ [u], by simp, htag, ?_⟩
      rw [List.mem_append, List.mem_singleton, not_or]
      exact ⟨hsince, Ne.symm hu⟩

theorem lastSet_concat :
    LastSet (us ++ [u]) key value ↔
      (∃ tags, u = .set key value tags) ∨ LastSet us key value ∧ ¬ u.Ends us key := by
  constructor
  · rintro ⟨before, tags, since, hus, hsince⟩
    rcases concat_eq_append_cons hus with ⟨_, _, hu⟩ | ⟨earlier, rfl, rfl⟩
    · exact .inl ⟨tags, hu⟩
    · refine .inr ⟨⟨before, tags, earlier, rfl, ?_⟩, hsince earlier u [] rfl⟩
      intro next u' rest hearlier
      exact hsince next u' (rest ++ [u]) (by simp [hearlier])
  · rintro (⟨tags, rfl⟩ | ⟨⟨before, tags, since, rfl, hsince⟩, hu⟩)
    · exact ⟨us, tags, [], rfl, by simp⟩
    · refine ⟨before, tags, since ++ [u], by simp, ?_⟩
      intro next u' rest hnext
      rcases concat_eq_append_cons hnext with ⟨_, rfl, rfl⟩ | ⟨earlier, _, hearlier⟩
      · exact hu
      · exact hsince next u' earlier hearlier

end History

section Keys

variable {c : Cache} {key : String} {value : Bytes}

/-- When no key is there twice, the entry under a key is the one that is found. -/
theorem mem_entries_iff (h : c.keys.Nodup) : (key, value) ∈ c.entries ↔ c.get? key = some value := by
  unfold get?
  constructor
  · intro hmem
    cases hfind : c.entries.find? (·.1 == key) with
    | none =>
      have hnone := List.find?_eq_none.1 hfind _ hmem
      simp at hnone
    | some entry =>
      have hentry : entry.1 = key := by simpa using List.find?_some hfind
      have hsame := List.inj_on_of_nodup_map h (List.mem_of_find?_eq_some hfind) hmem hentry
      rw [hsame, Option.map_some]
  · intro hfound
    obtain ⟨entry, hfind, rfl⟩ := Option.map_eq_some_iff.1 hfound
    have hentry : entry.1 = key := by simpa using List.find?_some hfind
    rw [← hentry]
    exact List.mem_of_find?_eq_some hfind

end Keys

/-- What a history says of a cache: its index, what is found under its keys, and that no key is there
twice. -/
structure Tracks (us : List Update) (c : Cache) : Prop where
  index : ∀ tag key, (tag, key) ∈ c.index ↔ SetUnder us tag key
  found : ∀ key value, c.get? key = some value ↔ LastSet us key value
  keys : c.keys.Nodup

section Tracks

variable {us : List Update} {c : Cache}

theorem tracks_empty : Tracks [] .empty := by
  constructor
  · simp [empty, SetUnder]
  · simp [empty, get?, LastSet]
  · exact List.nodup_nil

theorem Tracks.set (h : Tracks us c) (key : String) (value : Bytes) (tags : List String) :
    Tracks (us ++ [.set key value tags]) (c.set key value tags) := by
  constructor
  · intro tag key'
    rw [setUnder_concat, mem_index_set_tags, h.index]
    simp only [Update.set.injEq, ne_eq, reduceCtorEq, not_false_eq_true, and_true]
    refine or_congr_left ?_
    constructor
    · rintro ⟨htag, rfl⟩
      exact ⟨value, tags, ⟨rfl, rfl, rfl⟩, htag⟩
    · rintro ⟨_, _, ⟨rfl, rfl, rfl⟩, htag⟩
      exact ⟨htag, rfl⟩
  · intro key' value'
    rw [lastSet_concat, get?_set, ← h.found]
    by_cases hkey : key' = key
    · simp [hkey, Update.Ends]
    · simp [hkey, Ne.symm hkey, Update.Ends]
  · have hrest : ((c.entries.filter (·.1 != key)).map (·.1)).Nodup :=
      h.keys.sublist (List.filter_sublist.map _)
    refine List.nodup_cons.2 ⟨?_, hrest⟩
    rw [List.mem_map]
    rintro ⟨entry, hentry, hkey⟩
    simpa [hkey] using List.of_mem_filter hentry

theorem Tracks.remove (h : Tracks us c) (key : String) :
    Tracks (us ++ [.remove key]) (c.remove key) := by
  constructor
  · intro tag key'
    rw [setUnder_concat, ← h.index]
    simp [Cache.remove]
  · intro key' value'
    rw [lastSet_concat, get?_remove, ← h.found]
    by_cases hkey : key' = key
    · simp [hkey, Update.Ends]
    · simp [hkey, Ne.symm hkey, Update.Ends]
  · exact h.keys.sublist (List.filter_sublist.map _)

theorem Tracks.invalidate (h : Tracks us c) (tag : String) :
    Tracks (us ++ [.invalidate tag]) (c.invalidate tag) := by
  constructor
  · intro tag' key
    rw [setUnder_concat, mem_index_invalidate, ← h.index]
    simp [eq_comm]
  · intro key value
    rw [lastSet_concat, get?_invalidate, ← h.found, Update.Ends, ← h.index]
    by_cases hindex : (tag, key) ∈ c.index
    · simp [hindex]
    · simp [hindex]
  · exact h.keys.sublist (List.filter_sublist.map _)

theorem Tracks.apply (h : Tracks us c) (u : Update) : Tracks (us ++ [u]) (u.apply c) := by
  cases u with
  | set key value tags => exact h.set key value tags
  | remove key => exact h.remove key
  | invalidate tag => exact h.invalidate tag

theorem tracks_updated (us : List Update) : Tracks us (updated us) := by
  induction us using List.reverseRecOn with
  | nil => exact tracks_empty
  | append_singleton us u ih =>
    rw [updated, List.foldl_concat]
    exact ih.apply u

end Tracks

/-- Whatever updates a cache has had that was empty at first: under a key is found what it was last
set to, unless it was removed since or a tag was invalidated that it had been set with; and
invalidating a tag removes just the entries whose keys were set with that tag since it was last
invalidated, all others staying with their values. -/
theorem updated_recalls (us : List Update) :
    (∀ key value, (updated us).get? key = some value ↔ LastSet us key value) ∧
    (∀ key value, (key, value) ∈ (updated us).entries ↔ (updated us).get? key = some value) ∧
    ∀ tag entry, entry ∈ ((updated us).invalidate tag).entries ↔
      entry ∈ (updated us).entries ∧ ¬ SetUnder us tag entry.1 := by
  have h := tracks_updated us
  refine ⟨h.found, fun key value => mem_entries_iff h.keys, fun tag entry => ?_⟩
  rw [← h.index]
  simp [Cache.invalidate, keysUnder]

end Outline.Cache
