import RootShell.ByteLines
import RootShell.MarkerRemoval

/-!
The filter for cursor position queries in the server's output: the loop of forwardOutput in
tssh/notif.go. Each read is filtered on its own, whatever the reads before it ended with.
-/
namespace CursorQueries
open ByteLines MarkerRemoval PiecewiseFeeds

def esc6n : Bytes := [0x1B, 0x5B, 0x36, 0x6E]

def bufferSize : Nat := 32 * 1024

structure OutputRead where
  bytes : Bytes
  failed : Bool
  interceptFlag : Bool
  filterESC6n : Bool
  writeFailed : Option Nat
  fits : bytes.length ≤ bufferSize

def OutputRead.filtered (r : OutputRead) : Bytes :=
  if r.filterESC6n then replaceAll esc6n [] r.bytes else r.bytes

def forwardOutput : List OutputRead → Bytes
  | [] => []
  | r :: reads =>
    let rest := if r.failed then [] else forwardOutput reads
    if r.bytes = [] ∨ r.interceptFlag then rest
    else
      match r.writeFailed with
      | some n => r.filtered.take n
      | none => r.filtered ++ rest

structure OutputRead.Filtering (r : OutputRead) : Prop where
  off : r.interceptFlag = false
  on : r.filterESC6n = true
  written : r.writeFailed = none

/-- The stream the reads deliver; only the last of them may report an error. -/
def stream (reads : List OutputRead) : Bytes := (reads.map OutputRead.bytes).flatten

theorem esc6n_solid : Solid esc6n := ⟨by decide, by simp [esc6n]⟩

theorem forward_output_round {r : OutputRead} (now : r.Filtering) (reads : List OutputRead) :
    forwardOutput (r :: reads) = replaceAll esc6n [] r.bytes ++ if r.failed then [] else forwardOutput reads := by
  rw [forwardOutput]
  by_cases empty : r.bytes = []
  · rw [if_pos (Or.inl empty), empty]
    rfl
  · simp only [now.off, now.written, OutputRead.filtered, now.on, empty, Bool.false_eq_true, or_self, ↓reduceIte]

theorem forward_output_feeds {reads : List OutputRead} (filtering : ∀ r ∈ reads, r.Filtering)
    (live : ∀ r ∈ reads.dropLast, r.failed = false) :
    forwardOutput reads =
      (feedAll (fun _ piece => ((), replaceAll esc6n [] piece)) () (reads.map OutputRead.bytes)).2 := by
  have rounds : forwardOutput reads = reads.flatMap fun r => replaceAll esc6n [] r.bytes :=
    rounds_yield forwardOutput rfl (fun r member rest => forward_output_round (filtering r member) rest) live
  rw [rounds, feed_all_stateless, List.flatMap_map]

/-- The written bytes are the stream without its cursor queries exactly when no query is
    split between two reads. -/
theorem cursor_queries_removed_iff (reads : List OutputRead) (filtering : ∀ r ∈ reads, r.Filtering)
    (live : ∀ r ∈ reads.dropLast, r.failed = false) :
    forwardOutput reads = outside esc6n (stream reads) ↔
      ∀ front r back, reads = front ++ r :: back → ¬ Straddles esc6n (stream front) r.bytes := by
  have agree := feed_all_eq_iff (replacement_follows esc6n_solid [] (by decide)) rfl (reads.map OutputRead.bytes)
  rw [forward_output_feeds filtering live, ← removal_outside esc6n_solid, stream]
  rw [Prod.ext_iff] at agree
  simp only [true_and] at agree
  rw [agree]
  constructor
  · rintro smooth front r back rfl
    exact smooth (front.map OutputRead.bytes) r.bytes (back.map OutputRead.bytes) (by simp)
  · intro smooth front piece back split
    obtain ⟨before, after, rfl, rfl, later⟩ := List.map_eq_append_iff.1 split
    obtain ⟨r, more, rfl, rfl, rfl⟩ := List.map_eq_cons_iff.1 later
    exact smooth before r more rfl

def plainRead (s : Bytes) (fits : s.length ≤ bufferSize) : OutputRead :=
  ⟨s, false, false, true, none, fits⟩

theorem whole_query_removed :
    forwardOutput [plainRead (text "a\x1b[6nb") (by decide +kernel), plainRead (text "c") (by decide +kernel)] =
      outside esc6n (text "a\x1b[6nbc") := by
  refine (cursor_queries_removed_iff _ ?_ ?_).2 ?_
  · simp only [List.forall_mem_cons]
    exact ⟨⟨rfl, rfl, rfl⟩, ⟨rfl, rfl, rfl⟩, by simp⟩
  · simp [plainRead]
  · rintro front r back split ⟨x, y, hx, hy, eq, before, after⟩
    cases front with
    | nil => exact hx (List.suffix_nil.1 before)
    | cons first front =>
      cases front with
      | nil =>
        obtain ⟨_, rfl, _⟩ := split
        obtain ⟨b, y, rfl⟩ := List.exists_cons_of_ne_nil hy
        have head : b = 0x63 := (List.cons_prefix_cons.1 after).1
        have inside : b ∈ esc6n := by simp [eq]
        rw [head] at inside
        exact absurd inside (by decide)
      | cons second front => simp at split

theorem split_query_passes :
    forwardOutput [plainRead (text "\x1b[6") (by decide +kernel), plainRead (text "n") (by decide +kernel)] =
      text "\x1b[6n" ∧
    forwardOutput [plainRead (text "\x1b[6n") (by decide +kernel)] = [] ∧
    outside esc6n (text "\x1b[6n") = [] := by
  refine ⟨by decide +kernel, by decide +kernel, ?_⟩
  rw [← removal_outside esc6n_solid]
  decide +kernel

end CursorQueries
