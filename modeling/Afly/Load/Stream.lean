import Afly.C.Utf8Text

/-! # The bytes that the lexer sees

`load.c` reads a text through a stream that takes one UTF-8 sequence at a time
into a buffer and checks it there. What it delivers depends on the text alone:
the bytes up to the first sequence that is malformed, and then the end of the
text or an error, for good.
-/

namespace Afly.Load

/-- `STREAM_STATE_OK` and the two states that a stream does not leave. -/
inductive StreamState where
  | ok
  | eof
  | error
  deriving DecidableEq

/-- A stream: what its source still has, and the part of its buffer that is not read. -/
structure Stream where
  data : CStr
  buffer : CStr
  state : StreamState

/-- What `stream_get` returns. -/
inductive StreamChar where
  | byte (c : Char)
  | eof
  | error
  deriving DecidableEq

/-- What `stream->get` stores in the buffer where the text has ended. -/
def eofByte : Char := '\xff'

def streamGet (stream : Stream) : StreamChar × Stream :=
  match stream.state with
  | .eof => (.eof, stream)
  | .error => (.error, stream)
  | .ok =>
    match stream.buffer with
    | c :: buffer => (.byte c, { stream with buffer := buffer })
    | [] =>
      match stream.data with
      | [] => (.eof, { stream with state := .eof })
      | c :: data =>
        if 0x80 ≤ c.toNat then
          let count := utf8CheckFirst c
          if count = 0 then (.error, { stream with data := data, state := .error })
          else
            let buffer := (c :: data ++ List.replicate count eofByte).take count
            let stream := { stream with data := data.drop (count - 1) }
            if utf8CheckFull buffer then (.byte c, { stream with buffer := buffer.tail })
            else (.error, { stream with state := .error })
        else (.byte c, { stream with data := data })

/-- `stream_unget`, which goes back in the buffer. -/
def streamUnget (stream : Stream) : StreamChar → Stream
  | .byte c => { stream with buffer := c :: stream.buffer }
  | .eof | .error => stream

/-- The bytes that a text delivers, with the number of bytes of a checked sequence still to go. -/
def streamBytes : ℕ → CStr → CStr
  | _, [] => []
  | n + 1, c :: s => c :: streamBytes n s
  | 0, c :: s =>
    let count := utf8CheckFirst c
    if count = 0 then []
    else if count = 1 then c :: streamBytes 0 s
    else if count ≤ s.length + 1 ∧ utf8CheckFull ((c :: s).take count) then
      c :: streamBytes (count - 1) s
    else []

def Stream.bytes (stream : Stream) : CStr :=
  match stream.state with
  | .ok => stream.buffer ++ streamBytes 0 stream.data
  | .eof | .error => []

/-- What a stream delivers when all its bytes are read. -/
def Stream.last (stream : Stream) : StreamChar :=
  match stream.state with
  | .ok => if utf8CheckString stream.data then .eof else .error
  | .eof => .eof
  | .error => .error

variable {stream : Stream} {c : Char} {s : CStr}

theorem streamBytes_skip (n : ℕ) (s : CStr) :
    streamBytes n s = s.take n ++ streamBytes 0 (s.drop n) := by
  induction n generalizing s with
  | zero => rfl
  | succ n ih =>
    cases s with
    | nil => rfl
    | cons c s =>
      rw [streamBytes, ih, List.take_succ_cons, List.drop_succ_cons, List.cons_append]

theorem streamBytes_eq {n : ℕ} (h : utf8CheckLoop n s = true) : streamBytes n s = s := by
  induction s generalizing n with
  | nil => cases n <;> rfl
  | cons c s ih =>
    cases n with
    | succ n =>
      rw [utf8CheckLoop] at h
      rw [streamBytes, ih h]
    | zero =>
      rw [utf8CheckLoop] at h
      rw [streamBytes]
      split_ifs at h with hzero hone
      · rw [if_neg hzero, if_pos hone, ih h]
      · simp only [Bool.and_eq_true, decide_eq_true_eq] at h
        rw [if_neg hzero, if_neg hone, if_pos h.1, ih h.2]

theorem utf8CheckFull_eof {n : ℕ} (h : s.length < n) (hs : s ≠ []) :
    utf8CheckFull ((s ++ List.replicate n eofByte).take n) = false := by
  obtain ⟨c, s, rfl⟩ := List.exists_cons_of_ne_nil hs
  obtain ⟨k, rfl⟩ := Nat.exists_eq_add_of_lt h
  have hlast : ∀ (t : CStr) (value : ℕ),
      utf8Value value (t ++ eofByte :: List.replicate k eofByte) =
      none := by
    intro t
    induction t with
    | nil =>
      intro value
      rw [List.nil_append, utf8Value, if_pos (Or.inr (by decide))]
    | cons b t ih =>
      intro value
      rw [List.cons_append, utf8Value]
      split
      · rfl
      · exact ih _
  have htake : (c :: s ++ List.replicate ((c :: s).length + k + 1) eofByte).take
      ((c :: s).length + k + 1) = c :: (s ++ eofByte :: List.replicate k eofByte) := by
    have hcount : min ((c :: s).length + k + 1 - (c :: s).length) ((c :: s).length + k + 1) =
        k + 1 := by omega
    rw [List.take_append, List.take_of_length_le (by omega), List.take_replicate, hcount,
      List.replicate_succ, List.cons_append]
  rw [htake, utf8CheckFull, hlast]

theorem check_buffer (count : ℕ) :
    utf8CheckFull ((c :: s ++ List.replicate count eofByte).take count) =
      (decide (count ≤ s.length + 1) && utf8CheckFull ((c :: s).take count)) := by
  by_cases hlen : count ≤ s.length + 1
  · rw [List.take_append_of_le_length (by simpa using hlen), decide_eq_true hlen, Bool.true_and]
  · rw [utf8CheckFull_eof (by rw [List.length_cons]; omega) (List.cons_ne_nil c s),
      decide_eq_false hlen, Bool.false_and]

theorem streamGet_first (c : Char) (s : CStr) :
    streamGet ⟨c :: s, [], .ok⟩ =
      if utf8CheckFirst c = 0 then (.error, ⟨s, [], .error⟩)
      else if utf8CheckFirst c = 1 then (.byte c, ⟨s, [], .ok⟩)
      else if utf8CheckFirst c ≤ s.length + 1 ∧
          utf8CheckFull ((c :: s).take (utf8CheckFirst c)) then
        (.byte c, ⟨s.drop (utf8CheckFirst c - 1), s.take (utf8CheckFirst c - 1), .ok⟩)
      else (.error, ⟨s.drop (utf8CheckFirst c - 1), [], .error⟩) := by
  by_cases hascii : 0x80 ≤ c.toNat
  · have hone : utf8CheckFirst c ≠ 1 := fun h => utf8CheckFirst_eq_one_iff.mp h hascii
    simp only [streamGet, if_pos hascii, if_neg hone]
    by_cases hzero : utf8CheckFirst c = 0
    · rw [if_pos hzero, if_pos hzero]
    · rw [if_neg hzero, if_neg hzero, check_buffer]
      simp only [Bool.and_eq_true, decide_eq_true_eq]
      split_ifs with hfull
      · obtain ⟨n, hn⟩ := Nat.exists_eq_succ_of_ne_zero hzero
        rw [hn] at hfull ⊢
        rw [List.take_append_of_le_length (by simpa using hfull.1)]
        rfl
      · rfl
  · have hone := utf8CheckFirst_eq_one_iff.mpr hascii
    rw [hone, if_neg one_ne_zero, if_pos rfl]
    simp only [streamGet, if_neg hascii]

theorem streamGet_spec (stream : Stream) :
    (streamGet stream).1 = (stream.bytes.head?.map StreamChar.byte).getD stream.last ∧
      (streamGet stream).2.bytes = stream.bytes.tail ∧ (streamGet stream).2.last = stream.last := by
  obtain ⟨data, buffer, state⟩ := stream
  cases state with
  | eof => exact ⟨rfl, rfl, rfl⟩
  | error => exact ⟨rfl, rfl, rfl⟩
  | ok =>
    cases buffer with
    | cons c buffer => exact ⟨rfl, rfl, rfl⟩
    | nil =>
      cases data with
      | nil => exact ⟨rfl, rfl, rfl⟩
      | cons c s =>
        have hbytes : Stream.bytes ⟨c :: s, [], .ok⟩ = streamBytes 0 (c :: s) := rfl
        have hlast : Stream.last ⟨c :: s, [], .ok⟩ =
            if utf8CheckLoop 0 (c :: s) then .eof else .error := rfl
        rw [streamGet_first, hbytes, hlast, streamBytes, utf8CheckLoop]
        by_cases hzero : utf8CheckFirst c = 0
        · simp [hzero, Stream.bytes, Stream.last]
        by_cases hone : utf8CheckFirst c = 1
        · simp [hone, Stream.bytes, Stream.last, utf8CheckString]
        by_cases hseq : utf8CheckFirst c ≤ s.length + 1 ∧
            utf8CheckFull ((c :: s).take (utf8CheckFirst c)) = true
        · have hcheck : (decide (utf8CheckFirst c ≤ s.length + 1) &&
              utf8CheckFull ((c :: s).take (utf8CheckFirst c))) = true := by
            rw [Bool.and_eq_true, decide_eq_true_eq]
            exact hseq
          simp only [if_neg hzero, if_neg hone, if_pos hseq, hcheck,
            streamBytes_skip (utf8CheckFirst c - 1), utf8CheckLoop_skip (utf8CheckFirst c - 1)]
          exact ⟨rfl, rfl, rfl⟩
        · have hcheck : (decide (utf8CheckFirst c ≤ s.length + 1) &&
              utf8CheckFull ((c :: s).take (utf8CheckFirst c))) = false := by
            rw [← Bool.not_eq_true, Bool.and_eq_true, decide_eq_true_eq]
            exact hseq
          simp only [if_neg hzero, if_neg hone, if_neg hseq, hcheck]
          exact ⟨rfl, rfl, rfl⟩

theorem streamUnget_spec (h : stream.state = .ok) :
    (streamUnget stream (.byte c)).bytes = c :: stream.bytes ∧
      (streamUnget stream (.byte c)).last = stream.last := by
  obtain ⟨data, buffer, state⟩ := stream
  cases h
  exact ⟨rfl, rfl⟩

end Afly.Load
