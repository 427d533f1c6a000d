import UnixHomework.Verified.Fields

/-!
# Receiving into an array

`recv` stores the first bytes of what has arrived at the start of an array and
returns their number.  The idiom that follows it writes a NUL behind them and
uses the array as a string.  With room for the NUL the string is that of the
bytes received, whatever the array held before; with a message that fills the
array the NUL is written behind it, which is undefined.
-/

namespace UnixHomework.Verified.CharArray

variable {n : Nat}

/-- `recv(.., a, limit)`: at most `limit` bytes of the message. -/
def recv (a : CharArray n) (limit : Nat) (fits : limit ≤ n)
    (message : List UInt8) : CharArray n :=
  a.splice 0 (message.take limit) (by
    rw [Nat.zero_add]
    exact Nat.le_trans (List.length_take_le _ _) fits)

/-- What `recv` returns. -/
def recvLength (limit : Nat) (message : List UInt8) : Nat :=
  min message.length limit

/-- `a[recv(.., a, limit)] = '\0'`, and the string in the array. -/
def recvText? (a : CharArray n) (limit : Nat) (fits : limit ≤ n)
    (message : List UInt8) : Option (CharArray n × List UInt8) := do
  let a ← (a.recv limit fits message).write? (recvLength limit message) [0]
  let text ← a.readString? 0
  some (a, text)

section

variable (a : CharArray n) {limit : Nat} (fits : limit ≤ n)
  (message : List UInt8)

theorem length_take_recv (limit : Nat) (message : List UInt8) :
    (message.take limit).length = recvLength limit message := by
  rw [List.length_take, recvLength, Nat.min_comm]

/-- The bytes of the message are at the start. -/
theorem slice_recv {off k : Nat} (h : off + k ≤ recvLength limit message) :
    (a.recv limit fits message).slice off k =
      ((message.take limit).drop off).take k := by
  rw [recv, slice_splice_inside a _ (Nat.zero_le _)
    (by rw [Nat.zero_add, length_take_recv]; exact h), Nat.sub_zero]

/-- **Room for the terminator.** -/
theorem exists_recvText? (h : recvLength limit message < n) :
    ∃ b, a.recvText? limit fits message =
      some (b, cstr (message.take limit)) := by
  have hLength := length_take_recv limit message
  refine ⟨(a.recv limit fits message).splice (recvLength limit message) [0]
    h, ?_⟩
  have hText : ((a.recv limit fits message).splice
      (recvLength limit message) [0] h).readString? 0 =
        some (cstr (message.take limit)) := by
    apply readString?_terminated
    · rw [slice_splice_before _ _ (by rw [Nat.zero_add, hLength]),
        slice_recv a fits message (by rw [Nat.zero_add, hLength]),
        List.drop_zero, List.take_length]
    · rw [Nat.zero_add, hLength]
      exact slice_splice_self _ h
  rw [recvText?, write?_of_fits _ h, Option.bind_eq_bind, Option.bind_some,
    hText]
  rfl

/-- **No room.** -/
theorem recvText?_of_full (h : n ≤ recvLength limit message) :
    a.recvText? limit fits message = none := by
  rw [recvText?, write?, dif_neg (by rw [List.length_singleton]; omega)]
  rfl

end

end UnixHomework.Verified.CharArray
