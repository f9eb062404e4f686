import Mathlib.Data.List.Basic

/-!
# Checksums and decoders of zlib

`crc32` is the checksum of zlib. An `Inflater` is a streaming decoder in the manner of its
`inflate`, and `Decodes` is what its users rely on: whatever the pieces in which a decoder gets its
input and gives its output, at the end of the stream it has given what `decode` says.
-/

namespace Asnx.Zlib

/-- The entry of the table for one byte of `crc32`, by eight shifts. -/
def crcShift (crc : UInt32) : Nat → UInt32
  | 0 => crc
  | n + 1 => crcShift (if crc &&& 1 = 1 then (crc >>> 1) ^^^ 0xEDB88320 else crc >>> 1) n

/-- `crc32`: goes on with a checksum over more bytes. -/
def crc32 (crc : UInt32) (content : List UInt8) : UInt32 :=
  content.foldl (fun crc b => crcShift (crc ^^^ b.toUInt32) 8) (crc ^^^ 0xFFFFFFFF) ^^^ 0xFFFFFFFF

/-- A checksum that goes on with another. -/
theorem crc32_append (crc : UInt32) (a b : List UInt8) :
    crc32 (crc32 crc a) b = crc32 crc (a ++ b) := by
  unfold crc32
  rw [UInt32.xor_assoc, UInt32.xor_self, UInt32.xor_zero, List.foldl_append]

theorem crc32_nil (crc : UInt32) : crc32 crc [] = crc := by
  show crc ^^^ 0xFFFFFFFF ^^^ 0xFFFFFFFF = crc
  rw [UInt32.xor_assoc, UInt32.xor_self, UInt32.xor_zero]

/-- The results of `inflate`: `Z_OK`, `Z_STREAM_END`, `Z_BUF_ERROR`, and those that end the
decoding. -/
inductive Status where
  | ok
  | streamEnd
  | bufError
  | failed
  deriving DecidableEq, Repr

/-- A streaming decoder: from its state, the next input, the room for output and whether this is
all the input, it gives a status, its next state, the number of bytes it has consumed and the
output. -/
structure Inflater where
  State : Type
  start : State
  inflate : State → List UInt8 → Nat → Bool → Status × State × Nat × List UInt8

/-- The decoder has come to a state from its start, having consumed `fed` and given `out`. -/
inductive Inflater.Session (Z : Inflater) : Z.State → List UInt8 → List UInt8 → Prop where
  | start : Session Z Z.start [] []
  | more {s s' : Z.State} {fed out input output : List UInt8} {room n : Nat} {finish : Bool}
      {status : Status} : Session Z s fed out →
      Z.inflate s input room finish = (status, s', n, output) →
      status = .ok ∨ status = .bufError → Session Z s' (fed ++ input.take n) (out ++ output)

/-- At the end of the stream the decoder has given what `decode` says of the bytes that begin with
the stream. -/
def Inflater.Decodes (Z : Inflater) (decode : List UInt8 → Option (List UInt8)) : Prop :=
  ∀ s fed out input room finish s' n output rest, Z.Session s fed out →
    Z.inflate s input room finish = (.streamEnd, s', n, output) →
    decode (fed ++ input.take n ++ rest) = some (out ++ output)

/-- Whenever the decoder comes to the end of the stream in `data`, what it has given is good. -/
def Inflater.EndsIn (Z : Inflater) (data : List UInt8) (good : List UInt8 → Prop) : Prop :=
  ∀ s fed out input room finish s' n output, Z.Session s fed out → fed ++ input <+: data →
    Z.inflate s input room finish = (.streamEnd, s', n, output) → good (out ++ output)

theorem Inflater.Decodes.endsIn {Z : Inflater} {decode : List UInt8 → Option (List UInt8)}
    (h : Z.Decodes decode) (data : List UInt8) : Z.EndsIn data fun out =>
      decode data = some out := by
  intro s fed out input room finish s' n output hsession hdata hend
  obtain ⟨rest, rfl⟩ := hdata
  have hdecode := h s fed out input room finish s' n output (input.drop n ++ rest) hsession hend
  rwa [← List.append_assoc, List.append_assoc fed, List.take_append_drop] at hdecode

/-- The decoder gives `out`, or more, when it is offered a beginning of `data`. -/
def Inflater.Yields (Z : Inflater) (data out : List UInt8) : Prop :=
  ∃ s fed done input room finish status s' n output, Z.Session s fed done ∧
    fed ++ input <+: data ∧ Z.inflate s input room finish = (status, s', n, output) ∧
    out <+: done ++ output

theorem Inflater.Yields.of_prefix {Z : Inflater} {data out part : List UInt8}
    (h : Z.Yields data out)
    (hpart : part <+: out) : Z.Yields data part := by
  obtain ⟨s, fed, done, input, room, finish, status, s', n, output, hsession, hdata, hcall, hout⟩ :=
    h
  exact ⟨s, fed, done, input, room, finish, status, s', n, output, hsession, hdata, hcall,
    hpart.trans hout⟩

/-- On the way the decoder gives a beginning of what the data decodes to. -/
def Inflater.Gradual (Z : Inflater) (decode : List UInt8 → Option (List UInt8)) : Prop :=
  ∀ data out part, decode data = some out → Z.Yields data part → part <+: out

/-- Every call that does not end the decoding consumes input or gives output, unless it reports
`Z_BUF_ERROR` for want of input or of room. -/
def Inflater.Progresses (Z : Inflater) : Prop :=
  ∀ s fed out input room finish status s' n output, Z.Session s fed out →
    Z.inflate s input room finish = (status, s', n, output) →
    status = .ok ∨ (status = .bufError ∧ input ≠ [] ∧ 0 < room) → input.take n ≠ [] ∨ output ≠ []

/-- The output is bounded by a function of the number of bytes consumed. -/
def Inflater.Bounded (Z : Inflater) : Prop :=
  ∀ size, ∃ bound, ∀ s fed out, Z.Session s fed out → fed.length ≤ size → out.length ≤ bound

/-! ## Conforming decoders -/

/-- A call of the decoder with the next input of a stream, and with room for output. That this is
all the input is only said of the last of the stream. -/
structure Inflater.Call (Z : Inflater) (stream : List UInt8) (s : Z.State)
    (fed done input : List UInt8) (room : Nat) (finish : Bool) (status : Status) (s' : Z.State)
    (n : Nat) (output : List UInt8) : Prop where
  session : Z.Session s fed done
  offered : fed ++ input <+: stream
  has_room : 0 < room
  is_all : finish = true → fed ++ input = stream
  call : Z.inflate s input room finish = (status, s', n, output)

/-- The decoder decodes a stream to `out` as `inflate` is said to: it consumes input and gives the
next bytes of the output as long as it has both input and room, and with all of the stream it stops
before the end for want of room only, which is `Z_BUF_ERROR` if this was said to be all. -/
structure Inflater.Conforms (Z : Inflater) (stream out : List UInt8) : Prop where
  consumes : ∀ {s fed done input room finish status s' n output},
    Z.Call stream s fed done input room finish status s' n output → n ≤ input.length
  fits : ∀ {s fed done input room finish status s' n output},
    Z.Call stream s fed done input room finish status s' n output → output.length ≤ room
  gives : ∀ {s fed done input room finish status s' n output},
    Z.Call stream s fed done input room finish status s' n output → done ++ output <+: out
  succeeds : ∀ {s fed done input room finish status s' n output},
    Z.Call stream s fed done input room finish status s' n output → status ≠ .failed
  ends : ∀ {s fed done input room finish s' n output},
    Z.Call stream s fed done input room finish .streamEnd s' n output → done ++ output = out
  goes_on : ∀ {s fed done input room finish status s' n output},
    Z.Call stream s fed done input room finish status s' n output → status ≠ .streamEnd →
      n = input.length ∨ output.length = room
  full : ∀ {s fed done input room finish status s' n output},
    Z.Call stream s fed done input room finish status s' n output → status ≠ .streamEnd →
      fed ++ input.take n = stream → output.length = room
  finishes : ∀ {s fed done input room status s' n output},
    Z.Call stream s fed done input room true status s' n output → status ≠ .ok

/-- What is offered next when `avail` has been read and not consumed, and `rest` not been read. -/
def nextPiece (piece : Nat) (avail rest : List UInt8) : List UInt8 × List UInt8 :=
  if avail = [] then (rest.take piece, rest.drop piece) else (avail, rest)

/-- Offered the input and then the rest in pieces, with room for as much output in each call, the
decoder takes the last of it in a call that does not end the stream. -/
inductive Inflater.Exhausts (Z : Inflater) (piece : Nat) :
    Z.State → List UInt8 → List UInt8 → Prop
  | now {s s' : Z.State} {input rest output : List UInt8} {status : Status} {n : Nat} :
      Z.inflate s input piece (rest.length = 0) = (status, s', n, output) → status ≠ .streamEnd →
      rest = [] → input.drop n = [] → Exhausts Z piece s input rest
  | later {s s' : Z.State} {input rest output : List UInt8} {status : Status} {n : Nat} :
      Z.inflate s input piece (rest.length = 0) = (status, s', n, output) → status ≠ .streamEnd →
      ¬ (rest = [] ∧ input.drop n = []) →
      Exhausts Z piece s' (nextPiece piece (input.drop n) rest).1
        (nextPiece piece (input.drop n) rest).2 → Exhausts Z piece s input rest

section Exhausts

variable {Z : Inflater} {piece : Nat} {s s' : Z.State} {input rest output : List UInt8}
  {status : Status} {n : Nat}

/-- A stream that ends has not been exhausted. -/
theorem Inflater.not_exhausts_of_end
    (h : Z.inflate s input piece (rest.length = 0) = (.streamEnd, s', n, output)) :
    ¬ Z.Exhausts piece s input rest := by
  intro hexhausts
  cases hexhausts with
  | now hcall hstatus _ _ =>
      rw [h] at hcall
      exact hstatus (congrArg Prod.fst hcall).symm
  | later hcall hstatus _ _ =>
      rw [h] at hcall
      exact hstatus (congrArg Prod.fst hcall).symm

/-- A stream that goes on is exhausted if what comes next is. -/
theorem Inflater.exhausts_iff_next
    (h : Z.inflate s input piece (rest.length = 0) = (status, s', n, output))
    (hstatus : status ≠ .streamEnd) (hmore : ¬ (rest = [] ∧ input.drop n = [])) :
    Z.Exhausts piece s input rest ↔ Z.Exhausts piece s' (nextPiece piece (input.drop n) rest).1
      (nextPiece piece (input.drop n) rest).2 := by
  constructor
  · intro hexhausts
    cases hexhausts with
    | now hcall _ hrest hdrop =>
        rw [h] at hcall
        cases hcall
        exact absurd ⟨hrest, hdrop⟩ hmore
    | later hcall _ _ hnext =>
        rw [h] at hcall
        cases hcall
        exact hnext
  · exact .later h hstatus hmore

end Exhausts

/-! ## The decoder of one stream -/

/-- How much of the input a decoder takes that still expects `rest`; `none` if it is not that. -/
def takes (rest input : List UInt8) : Option Nat :=
  if input.isPrefixOf rest then some input.length
  else if rest.isPrefixOf input then some rest.length
  else none

/-- The decoder that knows of one stream only, and gives its output once it has seen it all. Its
state is what is left of the stream and of the output. -/
def Inflater.ofStream (stream out : List UInt8) : Inflater where
  State := List UInt8 × List UInt8
  start := (stream, out)
  inflate := fun (rest, pending) input room finish =>
    match takes rest input with
    | none => (.failed, (rest, pending), 0, [])
    | some n =>
        if rest.drop n ≠ [] then
          (if finish ∨ n = 0 then .bufError else .ok, (rest.drop n, pending), n, [])
        else if pending.length ≤ room then (.streamEnd, ([], []), n, pending)
        else
          (if finish ∨ (n = 0 ∧ room = 0) then .bufError else .ok, ([], pending.drop room), n,
            pending.take room)

section OfStream

variable {stream out : List UInt8}

theorem takes_eq_some {rest input : List UInt8} {n : Nat} (h : takes rest input = some n) :
    input.take n = rest.take n ∧ (n = input.length ∨ n = rest.length) := by
  unfold takes at h
  split at h
  · rename_i hprefix
    obtain rfl := Option.some.inj h
    obtain ⟨more, rfl⟩ := List.isPrefixOf_iff_prefix.1 hprefix
    exact ⟨by rw [List.take_length, List.take_left], .inl rfl⟩
  · split at h
    · rename_i hprefix
      obtain rfl := Option.some.inj h
      obtain ⟨more, rfl⟩ := List.isPrefixOf_iff_prefix.1 hprefix
      exact ⟨by rw [List.take_length, List.take_left], .inr rfl⟩
    · cases h

/-- What is left in a session of the decoder of one stream. -/
theorem Inflater.Session.ofStream {s : (Inflater.ofStream stream out).State}
    {fed done : List UInt8} (h : (Inflater.ofStream stream out).Session s fed done) :
    fed ++ Prod.fst s = stream ∧ done ++ Prod.snd s = out := by
  induction h with
  | start => exact ⟨rfl, rfl⟩
  | @more s s' fed done input output room n finish status hsession hcall hstatus ih =>
      obtain ⟨hfed, hdone⟩ := ih
      obtain ⟨rest, pending⟩ := s
      dsimp only at hfed hdone
      simp only [Inflater.ofStream] at hcall
      split at hcall
      · cases hcall
        rcases hstatus with hstatus | hstatus <;> cases hstatus
      · rename_i k hk
        obtain ⟨htake, -⟩ := takes_eq_some hk
        split at hcall
        · cases hcall
          refine ⟨?_, by rwa [List.append_nil]⟩
          rw [htake, List.append_assoc, List.take_append_drop, hfed]
        · rename_i hrest
          split at hcall
          · cases hcall
            rcases hstatus with hstatus | hstatus <;> cases hstatus
          · cases hcall
            refine ⟨?_, ?_⟩
            · have hall := List.take_append_drop n rest
              rw [not_not.1 hrest, List.append_nil] at hall
              rw [htake, hall, List.append_nil, hfed]
            · rw [List.append_assoc, List.take_append_drop, hdone]

/-- What the one stream decodes to. -/
def decodeStream (stream out data : List UInt8) : Option (List UInt8) :=
  if stream.isPrefixOf data then some out else none

theorem Inflater.ofStream_decodes :
    (Inflater.ofStream stream out).Decodes (decodeStream stream out) := by
  intro s fed done input room finish s' n output rest hsession hend
  obtain ⟨hfed, hdone⟩ := hsession.ofStream
  obtain ⟨left, pending⟩ := s
  dsimp only at hfed hdone
  simp only [Inflater.ofStream] at hend
  split at hend
  · cases hend
  · rename_i k hk
    obtain ⟨htake, -⟩ := takes_eq_some hk
    split at hend
    · split at hend <;> cases hend
    · rename_i hrest
      split at hend
      · cases hend
        have hall := List.take_append_drop n left
        rw [not_not.1 hrest, List.append_nil] at hall
        unfold decodeStream
        rw [htake, hall, hfed, if_pos (List.isPrefixOf_iff_prefix.2 (List.prefix_append _ _)),
          hdone]
      · split at hend <;> cases hend

theorem Inflater.ofStream_gradual :
    (Inflater.ofStream stream out).Gradual (decodeStream stream out) := by
  rintro data out' part hdecode ⟨s, fed, done, input, room, finish, status, s', n, output,
    hsession, -, hcall, hpart⟩
  obtain rfl : out = out' := by
    unfold decodeStream at hdecode
    split at hdecode
    · exact Option.some.inj hdecode
    · cases hdecode
  obtain ⟨-, hdone⟩ := hsession.ofStream
  obtain ⟨left, pending⟩ := s
  dsimp only at hdone
  have houtput : output <+: pending := by
    simp only [Inflater.ofStream] at hcall
    split at hcall
    · cases hcall
      exact List.nil_prefix
    · split at hcall
      · cases hcall
        exact List.nil_prefix
      · split at hcall
        · cases hcall
          exact List.prefix_refl _
        · cases hcall
          exact List.take_prefix _ _
  rw [← hdone]
  exact hpart.trans ((List.prefix_append_right_inj done).2 houtput)

theorem Inflater.ofStream_bounded : (Inflater.ofStream stream out).Bounded := by
  refine fun size => ⟨out.length, fun s fed done hsession _ => ?_⟩
  have hdone := congrArg List.length hsession.ofStream.2
  rw [List.length_append] at hdone
  omega

theorem Inflater.ofStream_progresses : (Inflater.ofStream stream out).Progresses := by
  intro s fed done input room finish status s' n output hsession hcall hstatus
  obtain ⟨left, pending⟩ := s
  simp only [Inflater.ofStream] at hcall
  split at hcall
  · cases hcall
    simp at hstatus
  rename_i k hk
  obtain ⟨htake, hlength⟩ := takes_eq_some hk
  split at hcall
  · -- part of the stream is still to come: input has been consumed
    rename_i hrest
    cases hcall
    refine .inl fun hnone => ?_
    rw [htake] at hnone
    have hzero : n = 0 := by
      rcases List.take_eq_nil_iff.1 hnone with hzero | hnil
      · exact hzero
      · rw [hnil, List.drop_nil] at hrest
        exact absurd rfl hrest
    subst hzero
    rcases hstatus with hok | ⟨-, hinput, -⟩
    · simp at hok
    · rcases hlength with hlength | hlength
      · exact hinput (List.length_eq_zero_iff.1 hlength.symm)
      · exact hrest (List.drop_of_length_le (by omega))
  · split at hcall
    · cases hcall
      simp at hstatus
    · rename_i hroom
      cases hcall
      -- the whole stream has been seen, so there is output wherever there is room
      rcases Nat.eq_zero_or_pos room with hzero | hpos
      · subst hzero
        rcases hstatus with hok | ⟨-, -, hpos⟩
        · refine .inl fun hnone => ?_
          rcases List.take_eq_nil_iff.1 hnone with hzero | hnil
          · simp [hzero] at hok
          · subst hnil
            have hzero : n = 0 := by
              rcases hlength with hlength | hlength
              · exact hlength
              · rw [List.take_nil] at htake
                rw [hlength, List.take_length] at htake
                rw [hlength, ← htake]
                rfl
            simp [hzero] at hok
        · exact absurd hpos (Nat.lt_irrefl 0)
      · refine .inr fun hnone => ?_
        rcases List.take_eq_nil_iff.1 hnone with hzero | hnil
        · omega
        · rw [hnil] at hroom
          exact hroom (Nat.zero_le _)

theorem takes_of_prefix {rest input : List UInt8} (h : input <+: rest) :
    takes rest input = some input.length :=
  if_pos (List.isPrefixOf_iff_prefix.2 h)

/-- What a call of the decoder of one stream comes to in a session on the stream. -/
theorem Inflater.Call.ofStream {s s' : (Inflater.ofStream stream out).State}
    {fed done input output : List UInt8} {room n : Nat} {finish : Bool} {status : Status}
    (h : (Inflater.ofStream stream out).Call stream s fed done input room finish status
      s' n output) :
    n = input.length ∧ ((status = .streamEnd ∧ done ++ output = out ∧ output.length ≤ room) ∨
      (status = (if finish ∨ (n = 0 ∧ output = []) then .bufError else .ok) ∧
        ((output = [] ∧ fed ++ input ≠ stream) ∨
          (output.length = room ∧ done ++ output <+: out)))) := by
  obtain ⟨hfed, hdone⟩ := h.session.ofStream
  obtain ⟨left, pending⟩ := s
  dsimp only at hfed hdone
  have hprefix : input <+: left := by
    have hoffered := h.offered
    rw [← hfed] at hoffered
    exact (List.prefix_append_right_inj fed).1 hoffered
  have hcall := h.call
  have hroom := h.has_room
  simp only [Inflater.ofStream, takes_of_prefix hprefix] at hcall
  split at hcall
  · rename_i hleft
    cases hcall
    refine ⟨rfl, .inr ⟨by simp, .inl ⟨rfl, fun hall => hleft ?_⟩⟩⟩
    rw [← hall] at hfed
    rw [List.append_cancel_left hfed, List.drop_length]
  · split at hcall
    · rename_i hfits
      cases hcall
      exact ⟨rfl, .inl ⟨rfl, hdone, hfits⟩⟩
    · rename_i hfits
      have hlength : (pending.take room).length = room := by
        rw [List.length_take]
        omega
      have hne : pending.take room ≠ [] := by
        intro hnil
        rw [hnil] at hlength
        exact absurd hlength.symm (Nat.ne_of_gt hroom)
      cases hcall
      refine ⟨rfl, .inr ⟨?_, .inr ⟨hlength, ?_⟩⟩⟩
      · simp [hne, Nat.ne_of_gt hroom]
      · rw [← hdone]
        exact (List.prefix_append_right_inj done).2 (List.take_prefix _ _)

theorem Inflater.ofStream_conforms :
    (Inflater.ofStream stream out).Conforms stream out where
  consumes h := Nat.le_of_eq h.ofStream.1
  fits h := by
    rcases h.ofStream.2 with ⟨-, -, hfits⟩ | ⟨-, ⟨hnil, -⟩ | ⟨hfull, -⟩⟩
    · exact hfits
    · rw [hnil]
      exact Nat.zero_le _
    · exact Nat.le_of_eq hfull
  gives h := by
    rcases h.ofStream.2 with ⟨-, hall, -⟩ | ⟨-, ⟨hnil, -⟩ | ⟨-, hgiven⟩⟩
    · exact ⟨[], by rw [hall, List.append_nil]⟩
    · rw [hnil, List.append_nil]
      exact ⟨_, h.session.ofStream.2⟩
    · exact hgiven
  succeeds h := by
    rcases h.ofStream.2 with ⟨hend, -⟩ | ⟨hstatus, -⟩
    · rw [hend]
      decide
    · rw [hstatus]
      split <;> decide
  ends h := by
    rcases h.ofStream.2 with ⟨-, hall, -⟩ | ⟨hstatus, -⟩
    · exact hall
    · split at hstatus <;> cases hstatus
  goes_on h _ := .inl h.ofStream.1
  full h hstatus hall := by
    rcases h.ofStream.2 with ⟨hend, -⟩ | ⟨-, ⟨-, hnot⟩ | ⟨hfull, -⟩⟩
    · exact absurd hend hstatus
    · rw [h.ofStream.1, List.take_length] at hall
      exact absurd hall hnot
    · exact hfull
  finishes h := by
    rcases h.ofStream.2 with ⟨hend, -⟩ | ⟨hstatus, -⟩
    · rw [hend]
      decide
    · rw [hstatus, if_pos (.inl rfl)]
      decide

/-- The decoder of one stream takes it all in one call, whether or not there is room for the
output. -/
theorem Inflater.ofStream_exhausts {piece : Nat} (h : ¬ out.length ≤ piece) :
    (Inflater.ofStream stream out).Exhausts piece (Inflater.ofStream stream out).start
      stream [] := by
  refine @Inflater.Exhausts.now (Inflater.ofStream stream out) piece _ ([], out.drop piece) _ _
    (out.take piece) .bufError stream.length ?_ (by decide) rfl List.drop_length
  simp only [Inflater.ofStream, takes_of_prefix (List.prefix_refl stream), List.drop_length]
  rw [if_neg (by simp), if_neg h, if_pos (.inl (decide_eq_true rfl))]

end OfStream

end Asnx.Zlib
