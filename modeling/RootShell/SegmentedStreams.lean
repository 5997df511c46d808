import Mathlib.Data.List.Basic

/-!
A stream that arrives in pieces of any length. An error comes with the last of a piece, so
it has its place in the stream whatever the reads ask for; empty pieces are empty reads.
-/
namespace SegmentedStreams
universe u v
variable {α : Type u} {E : Type v}

/-- Behind its pieces the stream ends with the same error for good. -/
structure Conn (α : Type u) (E : Type v) where
  pieces : List (List α × Option E)
  ending : E

def Conn.stream (c : Conn α E) : List α := c.pieces.flatMap Prod.fst

def firstError (ending : E) : List (List α × Option E) → List α × E
  | [] => ([], ending)
  | (piece, some err) :: _ => (piece, err)
  | (piece, none) :: rest => (piece ++ (firstError ending rest).1, (firstError ending rest).2)

def Conn.upToError (c : Conn α E) : List α × E := firstError c.ending c.pieces

def Conn.read (c : Conn α E) (space : Nat) : List α × Option E × Conn α E :=
  match c.pieces with
  | [] => ([], some c.ending, c)
  | (piece, err) :: rest =>
    if piece.length ≤ space then (piece, err, { c with pieces := rest })
    else (piece.take space, none, { c with pieces := (piece.drop space, err) :: rest })

def Conn.work (c : Conn α E) : Nat := c.stream.length + c.pieces.length

structure Delivered (c : Conn α E) (space : Nat) (out : List α × Option E × Conn α E) : Prop where
  stream : out.1 ++ out.2.2.stream = c.stream
  short : out.1.length ≤ space
  clean : out.2.1 = none → c.upToError = (out.1 ++ out.2.2.upToError.1, out.2.2.upToError.2)
  failed : ∀ err, out.2.1 = some err → c.upToError = (out.1, err)
  progress : 0 < space → out.2.2.work < c.work ∨ c.pieces = [] ∧ out.2.1 = some c.ending

theorem conn_read_delivered (c : Conn α E) (space : Nat) : Delivered c space (c.read space) := by
  obtain ⟨pieces, ending⟩ := c
  cases pieces with
  | nil =>
    refine ⟨rfl, Nat.zero_le _, nofun, fun err failed => ?_, fun _ => Or.inr ⟨rfl, rfl⟩⟩
    cases failed
    rfl
  | cons head rest =>
    obtain ⟨piece, err⟩ := head
    simp only [Conn.read]
    split
    · rename_i whole
      refine ⟨by simp [Conn.stream], whole, ?_, ?_, fun _ => Or.inl ?_⟩
      · rintro rfl
        rfl
      · rintro e rfl
        rfl
      · simp only [Conn.work, Conn.stream, List.flatMap_cons, List.length_append, List.length_cons]
        omega
    · rename_i long
      refine ⟨?_, List.length_take_le _ _, fun _ => ?_, nofun, fun room => Or.inl ?_⟩
      · simp only [Conn.stream, List.flatMap_cons, ← List.append_assoc, List.take_append_drop]
      · cases err with
        | none => simp only [Conn.upToError, firstError, ← List.append_assoc, List.take_append_drop]
        | some err => simp only [Conn.upToError, firstError, List.take_append_drop]
      · simp only [Conn.work, Conn.stream, List.flatMap_cons, List.length_append, List.length_cons, List.length_drop]
        omega

end SegmentedStreams
