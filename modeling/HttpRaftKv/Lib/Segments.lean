import Mathlib.Data.List.Basic

/-!
# Frames in a stream

A stream is cut into chunks, and a reader takes at most one frame from each
chunk.  If it never finds a frame in a chunk shorter than the frame, it finds
the frames of a stream exactly if the cuts are those between the frames.
-/

namespace HttpRaftKv.Segments

variable {α β : Type*} {read : List β → Option α} {write : α → List β}

/-- The frames that are found are not longer than the chunks, and they are
shorter unless every chunk is as long as its frame. -/
theorem lengths_eq (hread : ∀ chunk a, chunk ≠ [] → read chunk = some a →
      (write a).length ≤ chunk.length) (chunks : List (List β)) (hchunks : ∀ c ∈ chunks, c ≠ []) :
    (((chunks.filterMap read).map write).flatten.length ≤ chunks.flatten.length) ∧
      (chunks.flatten.length ≤ ((chunks.filterMap read).map write).flatten.length →
        chunks.map List.length = ((chunks.filterMap read).map write).map List.length) := by
  induction chunks with
  | nil => exact ⟨Nat.le_refl _, fun _ ↦ rfl⟩
  | cons c chunks ih =>
      obtain ⟨hle, heq⟩ := ih fun d hd ↦ hchunks d (List.mem_cons_of_mem c hd)
      have hc := hchunks c List.mem_cons_self
      have hpos := List.length_pos_of_ne_nil hc
      cases ha : read c with
      | none =>
          rw [List.filterMap_cons_none ha, List.flatten_cons, List.length_append]
          exact ⟨by omega, fun hlong ↦ by omega⟩
      | some a =>
          have hlength := hread c a hc ha
          rw [List.filterMap_cons_some ha, List.map_cons, List.flatten_cons, List.flatten_cons,
            List.length_append, List.length_append]
          refine ⟨by omega, fun hlong ↦ ?_⟩
          rw [List.map_cons, List.map_cons, heq (by omega)]
          congr 1
          omega

theorem filterMap_map_write {frames : List α} (hwrite : ∀ a ∈ frames, read (write a) = some a) :
    (frames.map write).filterMap read = frames := by
  induction frames with
  | nil => rfl
  | cons a frames ih =>
      rw [List.map_cons, List.filterMap_cons_some (hwrite a List.mem_cons_self),
        ih fun b hb ↦ hwrite b (List.mem_cons_of_mem a hb)]

/-- The frames of a stream are found exactly if every chunk is one frame. -/
theorem filterMap_eq_iff {frames : List α} (hwrite : ∀ a ∈ frames, read (write a) = some a)
    (hread : ∀ chunk a, chunk ≠ [] → read chunk = some a → (write a).length ≤ chunk.length)
    {chunks : List (List β)} (hchunks : ∀ c ∈ chunks, c ≠ [])
    (hstream : chunks.flatten = (frames.map write).flatten) :
    chunks.filterMap read = frames ↔ chunks = frames.map write := by
  constructor
  · rintro rfl
    have hlengths := (lengths_eq hread chunks hchunks).2
      (Nat.le_of_eq (congrArg List.length hstream))
    exact List.eq_iff_flatten_eq.mpr ⟨hstream, hlengths⟩
  · rintro rfl
    exact filterMap_map_write hwrite

end HttpRaftKv.Segments
