import WorldWind.Lib.Nio
/-!
# Reading a retrieved stream

The two loops of `URLRetriever`: one for a declared content length, one that
grows its buffer by pages until the stream ends. A channel is the pieces in
which the bytes arrive, and a read takes what the buffer has room for. Both loops
return the content (`readNonSpecificStream_content`), but they add the running
total to `contentLengthRead` instead of the last count, so it is right only where
one read brings everything (`readNonSpecificStream_counts_iff`).
-/

namespace WorldWind.Retrieve

open Lib.JavaInt Lib.Nio Lib.Nio.ByteBuffer

/-! ## The channel -/

/-- The pieces that are still to arrive. An empty piece is a read of nothing. -/
abbrev Channel := List (List Int8)

/-- Room left in a buffer. -/
def room (buffer : ByteBuffer) : Nat := buffer.limit - buffer.position

/-- `ReadableByteChannel.read`: the count, the buffer and the channel behind it. -/
def Channel.read (buffer : ByteBuffer) : Channel → Int × ByteBuffer × Channel
  | [] => (-1, buffer, [])
  | piece :: rest =>
    let taken := piece.take (room buffer)
    (taken.length, (buffer.put taken).getD buffer,
      if piece.length ≤ room buffer then rest else piece.drop (room buffer) :: rest)

/-! ## The loops -/

structure Reading where
  channel : Channel
  buffer : ByteBuffer
  numBytesRead : Int
  contentLengthRead : Int

/-- One read with the counting that follows it. -/
def Reading.read (r : Reading) : Int × Reading :=
  let (count, buffer, channel) := r.channel.read r.buffer
  if count > 0 then
    let numBytesRead := int (r.numBytesRead + count)
    (count, ⟨channel, buffer, numBytesRead, int (r.contentLengthRead + numBytesRead)⟩)
  else (count, { r with channel, buffer })

/-- The state after every read, and the buffer that the loop returns, none where it throws. -/
structure Run where
  reads : List Reading
  result : Option ByteBuffer

def Run.after (r : Reading) (run : Run) : Run := ⟨r :: run.reads, run.result⟩

/-- The loop for a declared content length. It throws at the end of the stream. -/
def readDeclared : Nat → Reading → Run
  | 0, _ => ⟨[], none⟩
  | fuel + 1, r =>
    if 0 ≤ r.numBytesRead ∧ r.numBytesRead < r.buffer.limit then
      let (count, r') := r.read
      if count < 0 then ⟨[r'], none⟩ else (readDeclared fuel r').after r'
    else ⟨[], some r.buffer.flip⟩

def pageSize : Nat := 2 ^ 15

/-- `biggerBuffer`, with the bytes of the full one. -/
def biggerBuffer (buffer : ByteBuffer) : Option ByteBuffer :=
  (allocate (int (buffer.limit + pageSize))).bind fun bigger => bigger.put buffer.rewind.remaining

/-- The loop for an unknown content length. -/
def readPages : Nat → Reading → Run
  | 0, _ => ⟨[], none⟩
  | fuel + 1, r =>
    let (count, r') := r.read
    if count < 0 then ⟨[r'], some r'.buffer.flip⟩
    else if count > 0 ∧ room r'.buffer = 0 then
      (biggerBuffer r'.buffer).elim ⟨[r'], none⟩ fun buffer => (readPages fuel { r' with buffer }).after r'
    else (readPages fuel r').after r'

/-- A bound on the reads: each takes bytes or a piece from the channel. -/
def Channel.size (channel : Channel) : Nat := channel.flatten.length + channel.length

def readNonSpecificStream (contentLength : Int) (channel : Channel) : Run :=
  if contentLength < 1 then
    match allocate pageSize with
    | none => ⟨[], none⟩
    | some buffer => readPages (channel.size + 1) ⟨channel, buffer, 0, 0⟩
  else
    match allocate contentLength with
    | none => ⟨[], none⟩
    | some buffer => readDeclared (channel.size + 1) ⟨channel, buffer, 0, 0⟩

/-! ## What a read does -/

/-- The buffer holds the bytes that have left the channel. -/
structure Holds (content : List Int8) (capacity : Nat) (done : List Int8) (r : Reading) : Prop where
  buffer : r.buffer = filled .bigEndian capacity done
  content : done ++ r.channel.flatten = content

theorem room_filled (order : ByteOrder) (capacity : Nat) (done : List Int8) :
    room (filled order capacity done) = capacity - done.length := rfl

theorem read_end {r : Reading} (h : r.channel = []) : r.read = (-1, r) := by
  obtain ⟨channel, buffer, n, c⟩ := r
  obtain rfl : channel = [] := h
  rfl

theorem read_empty {r : Reading} {rest : Channel} (h : r.channel = [] :: rest) : r.read.2.channel = rest := by
  obtain ⟨channel, buffer, n, c⟩ := r
  obtain rfl : channel = [] :: rest := h
  simp [Reading.read, Channel.read]

/-- A read puts what it takes in the buffer, and is counted where it takes something. -/
theorem read_piece {content done : List Int8} {capacity : Nat} {r : Reading} (h : Holds content capacity done r)
    {piece : List Int8} {rest : Channel} (hch : r.channel = piece :: rest) (hroom : done.length < capacity) :
    let taken := piece.take (capacity - done.length)
    r.read.1 = taken.length ∧ Holds content capacity (done ++ taken) r.read.2 ∧
      (done ++ taken).length ≤ capacity ∧ r.read.2.channel.size < r.channel.size ∧
      (taken = [] → r.read.2.numBytesRead = r.numBytesRead ∧ r.read.2.contentLengthRead = r.contentLengthRead) ∧
      (taken ≠ [] → r.read.2.numBytesRead = int (r.numBytesRead + taken.length) ∧
        r.read.2.contentLengthRead = int (r.contentLengthRead + int (r.numBytesRead + taken.length))) := by
  obtain ⟨channel, buffer, n, c⟩ := r
  obtain ⟨rfl, hcontent⟩ := h
  obtain rfl : channel = piece :: rest := hch
  simp only at hcontent
  intro taken
  have hlen : taken.length = min (capacity - done.length) piece.length := List.length_take
  have hput : (filled .bigEndian capacity done).put taken = some (filled .bigEndian capacity (done ++ taken)) := by
    rw [put_filled, if_pos]
    rw [List.length_append]
    omega
  have hread : Channel.read (filled .bigEndian capacity done) (piece :: rest) =
      ((taken.length : Int), filled .bigEndian capacity (done ++ taken),
        if piece.length ≤ capacity - done.length then rest else piece.drop (capacity - done.length) :: rest) := by
    simp only [Channel.read, room_filled]
    rw [show piece.take (capacity - done.length) = taken from rfl, hput, Option.getD_some]
    rfl
  have hflat : taken ++ (if piece.length ≤ capacity - done.length then rest
      else piece.drop (capacity - done.length) :: rest).flatten = (piece :: rest).flatten := by
    split
    · rename_i hle
      rw [List.flatten_cons, show taken = piece from List.take_of_length_le hle]
    · rw [List.flatten_cons, ← List.append_assoc, List.take_append_drop, List.flatten_cons]
  have hsize : Channel.size (if piece.length ≤ capacity - done.length then rest
      else piece.drop (capacity - done.length) :: rest) < Channel.size (piece :: rest) := by
    have hsum := congrArg List.length hflat
    rw [List.length_append] at hsum
    simp only [Channel.size]
    split at hsum
    · rename_i hle
      simp only [if_pos hle, List.length_cons] at hsum ⊢
      omega
    · rename_i hle
      simp only [if_neg hle, List.length_cons] at hsum ⊢
      omega
  have hholds : done ++ taken ++ (if piece.length ≤ capacity - done.length then rest
      else piece.drop (capacity - done.length) :: rest).flatten = content := by
    rw [List.append_assoc, hflat, hcontent]
  have hfit : (done ++ taken).length ≤ capacity := by
    rw [List.length_append]
    omega
  simp only [Reading.read, hread]
  by_cases hpos : (taken.length : Int) > 0
  · rw [if_pos hpos]
    exact ⟨rfl, ⟨rfl, hholds⟩, hfit, hsize, fun hnil => by rw [hnil] at hpos; simp at hpos, fun _ => ⟨rfl, rfl⟩⟩
  · rw [if_neg hpos]
    refine ⟨rfl, ⟨rfl, hholds⟩, hfit, hsize, fun _ => ⟨rfl, rfl⟩, fun hne => absurd ?_ hpos⟩
    exact_mod_cast List.length_pos_of_ne_nil hne

/-! ## The states after the reads -/

/-- The bytes that have been received. -/
def received (content : List Int8) (r : Reading) : Int := content.length - r.channel.flatten.length

/-- `contentLengthRead` is the number of bytes received. -/
def Counted (content : List Int8) (r : Reading) : Prop := r.contentLengthRead = received content r

theorem Holds.received_eq {content done : List Int8} {capacity : Nat} {r : Reading}
    (h : Holds content capacity done r) : received content r = done.length := by
  rw [received, ← h.content, List.length_append]
  push_cast
  omega

/-- Reads until nothing is left. A bigger buffer may take the place of one that a read has filled. -/
inductive Trace (content : List Int8) : Reading → List Reading → Prop
  | done {r : Reading} (h : r.channel.flatten = []) : Trace content r []
  | next {r : Reading} {done : List Int8} {capacity : Nat} {buffer : ByteBuffer} {reads : List Reading}
      (holds : Holds content capacity done r) (hroom : done.length < capacity)
      (hbuffer : r.read.1 = 0 → buffer = r.read.2.buffer) (h : Trace content { r.read.2 with buffer } reads) :
      Trace content r (r.read.2 :: reads)

/-- Once everything is there, the counts do not change. -/
theorem counted_of_all {content : List Int8} {r : Reading} {reads : List Reading} (h : Trace content r reads) :
    r.channel.flatten = [] → Counted content r → ∀ r' ∈ reads, Counted content r' := by
  induction h with
  | done => exact fun _ _ _ hr' => absurd hr' List.not_mem_nil
  | @next r done capacity buffer reads holds hroom hbuffer h ih =>
    intro hflat hcounted
    have hstep : r.read.2.channel.flatten = [] ∧ Counted content r.read.2 := by
      rcases hch : r.channel with _ | ⟨piece, rest⟩
      · rw [read_end hch]
        exact ⟨hflat, hcounted⟩
      · obtain ⟨-, hholds, -, -, hzero, -⟩ := read_piece holds hch hroom
        obtain rfl : piece = [] := by
          rw [hch, List.flatten_cons, List.append_eq_nil_iff] at hflat
          exact hflat.1
        rw [List.take_nil, List.append_nil] at hholds
        have hrest : r.read.2.channel.flatten = [] := by
          have h1 := holds.content
          rw [hflat, List.append_nil] at h1
          have h2 := hholds.content
          rw [h1] at h2
          simpa using h2
        refine ⟨hrest, ?_⟩
        rw [Counted, (hzero List.take_nil).2, hcounted, received, received, hflat, hrest]
    intro r' hr'
    rcases List.mem_cons.1 hr' with rfl | hr'
    · exact hstep.2
    · exact ih hstep.1 hstep.2 r' hr'

/-- A second count is added to the first. -/
theorem not_counted_of_some {content : List Int8} {r : Reading} {reads : List Reading} (h : Trace content r reads) :
    r.channel.flatten ≠ [] → r.numBytesRead = received content r → Counted content r → 0 < received content r →
      received content r < 2 ^ 31 → ∃ r' ∈ reads, ¬ Counted content r' := by
  induction h with
  | done h => exact fun hflat => absurd h hflat
  | @next r done capacity buffer reads holds hroom hbuffer h ih =>
    intro hflat hnum hcounted hpos hlt
    rcases hch : r.channel with _ | ⟨piece, rest⟩
    · rw [hch] at hflat
      exact absurd rfl hflat
    · obtain ⟨-, hholds, -, -, hzero, hsome⟩ := read_piece holds hch hroom
      by_cases htaken : piece.take (capacity - done.length) = []
      · rw [htaken, List.append_nil] at hholds
        have hsame : received content r.read.2 = received content r :=
          hholds.received_eq.trans holds.received_eq.symm
        have hflat' : r.read.2.channel.flatten = r.channel.flatten := by
          have := hholds.content.trans holds.content.symm
          exact List.append_cancel_left this
        obtain ⟨r', hr', hbad⟩ := ih (by rw [hflat']; exact hflat) ((hzero htaken).1.trans (hnum.trans hsame.symm))
          ((hzero htaken).2.trans (hcounted.trans hsame.symm)) (hsame ▸ hpos) (hsame ▸ hlt)
        exact ⟨r', List.mem_cons_of_mem _ hr', hbad⟩
      · refine ⟨r.read.2, List.mem_cons_self, fun hbad => ?_⟩
        rw [Counted, (hsome htaken).2, hcounted, hnum, int_add_int, hholds.received_eq, List.length_append] at hbad
        have hmod := congrArg (· % 2 ^ 32) hbad
        simp only [int_mod] at hmod
        rw [holds.received_eq] at hmod hpos hlt
        push_cast at hmod
        omega

/-- The counts are right where the first bytes to arrive are all of them and fit. -/
theorem counted_iff {content : List Int8} {r : Reading} {reads : List Reading} (h : Trace content r reads) :
    ∀ {capacity : Nat}, Holds content capacity [] r → capacity < 2 ^ 31 → r.numBytesRead = 0 →
      r.contentLengthRead = 0 →
      r.channel.flatten ≠ [] →
      ((∀ r' ∈ reads, Counted content r') ↔
        (r.channel.filter (· ≠ [])).length = 1 ∧ content.length ≤ capacity) := by
  induction h with
  | done h => exact fun _ _ _ _ hflat => absurd h hflat
  | @next r done capacity' buffer reads holds' hroom' hbuffer h ih =>
    intro capacity holds hcap hnum hzero hflat
    -- the buffer tells the capacity and what has been read
    have hsame : filled .bigEndian capacity' done = filled .bigEndian capacity [] :=
        holds'.buffer.symm.trans holds.buffer
    have hdone : done = [] := by
      have := congrArg ByteBuffer.position hsame
      exact List.eq_nil_of_length_eq_zero this
    have hcapacity : capacity' = capacity := congrArg ByteBuffer.limit hsame
    subst hdone hcapacity
    obtain ⟨piece, rest, hch⟩ :=
        List.exists_cons_of_ne_nil (show r.channel ≠ [] by rintro h; rw [h] at hflat; exact hflat rfl)
    obtain ⟨hcount, hholds, hfit, -, hempty, hsome⟩ := read_piece holds hch hroom'
    simp only [List.nil_append, List.length_nil, Nat.sub_zero] at hcount hholds hfit hempty hsome hroom'
    have hcontent : content = piece ++ rest.flatten := by
      rw [← holds.content, hch, List.nil_append, List.flatten_cons]
    by_cases hpiece : piece = []
    · -- a read of nothing
      subst hpiece
      rw [List.take_nil] at hcount hholds hempty
      have hfilter : r.channel.filter (· ≠ []) = r.read.2.channel.filter (· ≠ []) := by
        rw [hch, read_empty hch]
        rfl
      have hcounted : Counted content r.read.2 := by
        rw [Counted, (hempty rfl).2, hzero, hholds.received_eq]
        rfl
      rw [List.forall_mem_cons, and_iff_right hcounted, hfilter]
      have hkept : Holds content capacity' [] { r.read.2 with buffer := buffer } := by
        rw [hbuffer hcount]
        exact hholds
      refine ih hkept hcap ((hempty rfl).1.trans hnum) ((hempty rfl).2.trans hzero) ?_
      · rw [read_empty hch]
        rwa [hch, List.flatten_cons, List.nil_append] at hflat
    · -- the first bytes
      have htaken : piece.take capacity' ≠ [] := by
        rw [Ne, List.take_eq_nil_iff]
        rintro (h0 | h0)
        · omega
        · exact hpiece h0
      have hlen : (piece.take capacity').length = min capacity' piece.length := List.length_take
      have hnum' : r.read.2.numBytesRead = (piece.take capacity').length := by
        rw [(hsome htaken).1, hnum, Int.zero_add, int_eq (by omega) (by omega)]
      have hfits : int (piece.take capacity').length = (piece.take capacity').length := int_eq (by omega) (by omega)
      have hcounted : Counted content r.read.2 := by
        rw [Counted, (hsome htaken).2, hzero, hnum, Int.zero_add, Int.zero_add, hfits, hfits, hholds.received_eq]
      have hone : (r.channel.filter (· ≠ [])).length = 1 ↔ rest.flatten = [] := by
        rw [hch, List.filter_cons_of_pos (by simpa using hpiece), List.length_cons, Nat.add_eq_right,
          List.length_eq_zero_iff, List.filter_eq_nil_iff, List.flatten_eq_nil_iff]
        simp
      have hall : r.read.2.channel.flatten = [] ↔ rest.flatten = [] ∧ content.length ≤ capacity' := by
        have h1 := congrArg List.length hholds.content
        have h2 := congrArg List.length hcontent
        rw [List.length_append] at h1 h2
        rw [← List.length_eq_zero_iff, ← List.length_eq_zero_iff]
        omega
      rw [List.forall_mem_cons, and_iff_right hcounted, hone, ← hall]
      constructor
      · intro hgood
        by_contra hrest
        obtain ⟨r', hr', hbad⟩ := not_counted_of_some h hrest (hnum'.trans hholds.received_eq.symm) hcounted
          (by
            show 0 < received content r.read.2
            rw [hholds.received_eq]
            exact_mod_cast List.length_pos_of_ne_nil htaken)
          (by
            show received content r.read.2 < 2 ^ 31
            rw [hholds.received_eq]
            omega)
        exact hbad (hgood r' hr')
      · exact fun hrest => counted_of_all h hrest hcounted

/-! ## The loops -/

theorem readDeclared_spec {content : List Int8} (hlt : content.length < 2 ^ 31) :
    ∀ (fuel : Nat) {r : Reading} {done : List Int8}, r.channel.size < fuel → Holds content content.length done r →
      r.numBytesRead = done.length →
      (readDeclared fuel r).result = some (filled .bigEndian content.length content).flip ∧
        Trace content r (readDeclared fuel r).reads := by
  intro fuel
  induction fuel with
  | zero => exact fun h => absurd h (Nat.not_lt_zero _)
  | succ fuel ih =>
    intro r done hfuel holds hnum
    have hlimit : r.buffer.limit = content.length := by
      rw [holds.buffer]
      rfl
    have hdone : done.length + r.channel.flatten.length = content.length := by
      rw [← holds.content, List.length_append]
    by_cases hmore : done.length < content.length
    · rw [readDeclared, if_pos (by rw [hnum, hlimit]; omega)]
      obtain ⟨piece, rest, hch⟩ := List.exists_cons_of_ne_nil
        (show r.channel ≠ [] by rintro h; rw [h] at hdone; simp at hdone; omega)
      obtain ⟨hcount, hholds, hfit, hsize, hempty, hsome⟩ := read_piece holds hch hmore
      have hnum' : r.read.2.numBytesRead = (done ++ piece.take (content.length - done.length)).length := by
        by_cases htaken : piece.take (content.length - done.length) = []
        · rw [(hempty htaken).1, hnum, htaken, List.append_nil]
        · rw [List.length_append] at hfit
          rw [(hsome htaken).1, hnum, List.length_append, int_eq (by omega) (by omega)]
          push_cast
          rfl
      obtain ⟨hresult, htrace⟩ := ih (by omega) hholds hnum'
      simp only
      rw [if_neg (by rw [hcount]; omega)]
      exact ⟨hresult, .next holds hmore (fun _ => rfl) htrace⟩
    · rw [readDeclared, if_neg (by rw [hnum, hlimit]; omega)]
      have hflat : r.channel.flatten = [] := List.length_eq_zero_iff.1 (by omega)
      have hcontent := holds.content
      rw [hflat, List.append_nil] at hcontent
      subst hcontent
      exact ⟨by rw [holds.buffer], .done hflat⟩

/-- The new buffer goes on from the full one, where its length fits an `int`. -/
theorem biggerBuffer_filled {done : List Int8} {capacity : Nat} (h : done.length = capacity)
    (hlt : capacity < 2 ^ 31) :
    biggerBuffer (filled .bigEndian capacity done) =
      if capacity + pageSize < 2 ^ 31 then some (filled .bigEndian (capacity + pageSize) done) else none := by
  have hpage : pageSize = 2 ^ 15 := rfl
  have hremaining : (filled .bigEndian capacity done).rewind.remaining = done := by
    rw [filled_all h]
    simp [rewind, remaining, ByteBuffer.content, ← h]
  rw [biggerBuffer, hremaining, show (filled .bigEndian capacity done).limit = capacity from rfl]
  split
  · rename_i hfit
    rw [int_eq (by omega) (by omega), allocate, if_neg (by omega), Option.bind_some]
    have hput := @put_filled .bigEndian (capacity + pageSize) [] done
    rw [List.nil_append, if_pos (by omega)] at hput
    exact hput
  · rename_i hfit
    have hneg : int (capacity + pageSize) < 0 := by
      have h1 := int_mod (capacity + pageSize)
      have h2 := int_lt (capacity + pageSize)
      omega
    rw [allocate, if_pos hneg, Option.bind_none]

theorem readPages_spec {content : List Int8} :
    ∀ (fuel : Nat) {r : Reading} {done : List Int8} {capacity : Nat}, r.channel.size < fuel →
      Holds content capacity done r → done.length < capacity → capacity < 2 ^ 31 → pageSize ∣ capacity →
      ((readPages fuel r).result = none ∧ 2 ^ 31 - pageSize ≤ content.length) ∨
        (content.length < 2 ^ 31 - pageSize ∧
          (∃ capacity, (readPages fuel r).result = some (filled .bigEndian capacity content).flip) ∧
          Trace content r (readPages fuel r).reads) := by
  have hpage : pageSize = 2 ^ 15 := rfl
  intro fuel
  induction fuel with
  | zero => exact fun h => absurd h (Nat.not_lt_zero _)
  | succ fuel ih =>
    intro r done capacity hfuel holds hroom hcap hdvd
    rcases hch : r.channel with _ | ⟨piece, rest⟩
    · -- the end of the stream
      have hflat : r.channel.flatten = [] := by rw [hch]; rfl
      have hcontent := holds.content
      rw [hflat, List.append_nil] at hcontent
      subst hcontent
      rw [readPages, read_end hch]
      simp only
      rw [if_pos (by decide)]
      obtain ⟨k, hk⟩ := hdvd
      rw [hpage] at hk
      refine Or.inr ⟨by omega, ⟨capacity, by rw [holds.buffer]⟩, ?_⟩
      have hlast := @Trace.next _ r _ _ r.buffer [] holds hroom
      rw [read_end hch] at hlast
      exact hlast (fun h => by cases h) (.done hflat)
    · obtain ⟨hcount, hholds, hfit, hsize, hempty, hsome⟩ := read_piece holds hch hroom
      rw [readPages]
      simp only
      rw [if_neg (by rw [hcount]; omega)]
      by_cases hfull : r.read.1 > 0 ∧ room r.read.2.buffer = 0
      · rw [if_pos hfull]
        have hlen : (done ++ piece.take (capacity - done.length)).length = capacity := by
          have := hfull.2
          rw [hholds.buffer, room_filled] at this
          omega
        rw [hholds.buffer, biggerBuffer_filled hlen hcap]
        by_cases hgrow : capacity + pageSize < 2 ^ 31
        · rw [if_pos hgrow, Option.elim_some]
          have hholds' : Holds content (capacity + pageSize) (done ++ piece.take (capacity - done.length))
              { r.read.2 with
                buffer := filled .bigEndian (capacity + pageSize) (done ++ piece.take (capacity - done.length)) } :=
            ⟨rfl, hholds.content⟩
          rcases ih (by exact Nat.lt_of_lt_of_le hsize (Nat.le_of_lt_succ hfuel)) hholds' (by omega) hgrow
            (hdvd.add (dvd_refl _)) with h | ⟨h1, h2, h3⟩
          · exact Or.inl h
          · exact Or.inr ⟨h1, h2, .next holds hroom (fun h0 => absurd h0 (by have := hfull.1; omega)) h3⟩
        · rw [if_neg hgrow, Option.elim_none]
          refine Or.inl ⟨rfl, ?_⟩
          have hle : capacity ≤ content.length := by
            rw [← hholds.content, List.length_append]
            omega
          omega
      · rw [if_neg hfull]
        have hroom' : (done ++ piece.take (capacity - done.length)).length < capacity := by
          rw [hholds.buffer, room_filled] at hfull
          by_cases h0 : r.read.1 > 0
          · have : ¬ capacity - (done ++ piece.take (capacity - done.length)).length = 0 := fun h => hfull ⟨h0, h⟩
            omega
          · rw [List.length_append]
            omega
        rcases ih (by exact Nat.lt_of_lt_of_le hsize (Nat.le_of_lt_succ hfuel)) hholds hroom' hcap
          hdvd with h | ⟨h1, h2, h3⟩
        · exact Or.inl h
        · exact Or.inr ⟨h1, h2, .next holds hroom (fun _ => rfl) h3⟩

/-! ## The content and the counts -/

theorem flip_filled_remaining (capacity : Nat) (content : List Int8) :
    (filled .bigEndian capacity content).flip.remaining = content := by
  simp [filled, ByteBuffer.flip, remaining, ByteBuffer.content]

theorem allocate_filled {capacity : Nat} : allocate capacity = some (filled .bigEndian capacity []) := by
  rw [allocate, if_neg (by omega)]
  rfl

theorem holds_start (channel : Channel) (capacity : Nat) :
    Holds channel.flatten capacity [] ⟨channel, filled .bigEndian capacity [], 0, 0⟩ := ⟨rfl, rfl⟩

/-- A declared length is that of the content and an `int`. -/
def Declares (contentLength : Int) (channel : Channel) : Prop :=
  contentLength = channel.flatten.length ∧ contentLength < 2 ^ 31

/-- The result and the states, for both loops: where the bytes do not fit a buffer, the loop for an unknown length
throws. -/
theorem readNonSpecificStream_spec {contentLength : Int} {channel : Channel}
    (hlength : contentLength < 1 ∨ Declares contentLength channel) :
    ((readNonSpecificStream contentLength channel).result = none ∧ contentLength < 1 ∧
        2 ^ 31 - pageSize ≤ channel.flatten.length) ∨
      ((contentLength < 1 → channel.flatten.length < 2 ^ 31 - pageSize) ∧
        (∃ capacity, (readNonSpecificStream contentLength channel).result =
          some (filled .bigEndian capacity channel.flatten).flip) ∧
        Trace channel.flatten
          ⟨channel, filled .bigEndian (if contentLength < 1 then pageSize else channel.flatten.length) [], 0, 0⟩
          (readNonSpecificStream contentLength channel).reads) := by
  by_cases hlt : contentLength < 1
  · rw [readNonSpecificStream, if_pos hlt, allocate_filled, if_pos hlt]
    rcases readPages_spec (channel.size + 1) (Nat.lt_succ_self _) (holds_start channel pageSize) (by decide)
      (by decide)
      (dvd_refl _) with ⟨h1, h2⟩ | ⟨h1, h2, h3⟩
    · exact Or.inl ⟨h1, hlt, h2⟩
    · exact Or.inr ⟨fun _ => h1, h2, h3⟩
  · obtain ⟨rfl, hint⟩ := hlength.resolve_left hlt
    rw [readNonSpecificStream, if_neg hlt, allocate_filled, if_neg hlt]
    obtain ⟨h1, h2⟩ := readDeclared_spec (by exact_mod_cast hint) (channel.size + 1) (Nat.lt_succ_self _)
      (holds_start channel channel.flatten.length) rfl
    exact Or.inr ⟨fun h => absurd h hlt, ⟨_, h1⟩, h2⟩

/-- Every content is returned whole, of unknown length as long as it has less than `2 ^ 31 - 2 ^ 15` bytes. -/
theorem readNonSpecificStream_content {contentLength : Int} {channel : Channel} (hsome : channel.flatten ≠ [])
    (hlength : (contentLength < 1 ∧ channel.flatten.length < 2 ^ 31 - pageSize) ∨ Declares contentLength channel) :
    ∃ buffer, (readNonSpecificStream contentLength channel).result = some buffer ∧
      buffer.remaining = channel.flatten := by
  rcases readNonSpecificStream_spec (hlength.imp_left And.left) with ⟨-, h1, h2⟩ | ⟨-, ⟨capacity, h⟩, -⟩
  · rcases hlength with ⟨-, h⟩ | ⟨h, -⟩
    · omega
    · have := List.length_pos_of_ne_nil hsome
      omega
  · exact ⟨_, h, flip_filled_remaining capacity _⟩

/-- The content is returned, and `contentLengthRead` is right after every read. -/
def ReadsRight (contentLength : Int) (channel : Channel) : Prop :=
  (∃ buffer, (readNonSpecificStream contentLength channel).result = some buffer ∧
    buffer.remaining = channel.flatten) ∧
    ∀ r ∈ (readNonSpecificStream contentLength channel).reads, Counted channel.flatten r

/-- The counts are right exactly where one read brings all the bytes: they arrive in one piece, and where their
number is
not known, that piece fits the first page. -/
theorem readNonSpecificStream_counts_iff {contentLength : Int} {channel : Channel} (hsome : channel.flatten ≠ [])
    (hlength : contentLength < 1 ∨ Declares contentLength channel) :
    ReadsRight contentLength channel ↔
      (channel.filter (· ≠ [])).length = 1 ∧ (contentLength < 1 → channel.flatten.length ≤ pageSize) := by
  have hpage : pageSize = 2 ^ 15 := rfl
  rcases readNonSpecificStream_spec hlength with ⟨h1, h2, h3⟩ | ⟨h1, ⟨capacity, h2⟩, h3⟩
  · refine iff_of_false ?_ ?_
    · rintro ⟨⟨buffer, hbuffer, -⟩, -⟩
      rw [h1] at hbuffer
      cases hbuffer
    · rintro ⟨-, hle⟩
      have := hle h2
      omega
  · have hcontent : ∃ buffer, (readNonSpecificStream contentLength channel).result = some buffer ∧
        buffer.remaining = channel.flatten := ⟨_, h2, flip_filled_remaining capacity _⟩
    rw [ReadsRight, and_iff_right hcontent, counted_iff h3 (holds_start channel _) ?_ rfl rfl hsome]
    · by_cases hlt : contentLength < 1
      · rw [if_pos hlt]
        exact and_congr_right fun _ => ⟨fun h _ => h, fun h => h hlt⟩
      · rw [if_neg hlt]
        exact and_congr_right fun _ => iff_of_true le_rfl fun h => absurd h hlt
    · split
      · rw [hpage]
        decide
      · rename_i hlt
        obtain ⟨hlen, hint⟩ := hlength.resolve_left hlt
        omega

theorem oneRead_right : ReadsRight (-1) [[], [1, 2, 3]] :=
  (readNonSpecificStream_counts_iff (by decide) (Or.inl (by decide))).2 ⟨by decide, fun _ => by decide⟩

/-- Two bytes that arrive one by one are counted as three. -/
theorem twoReads_wrong : ¬ ReadsRight 2 [[1], [2]] ∧
    (readNonSpecificStream 2 [[1], [2]]).reads.map (·.contentLengthRead) = [1, 3] := by
  have hreads : (readNonSpecificStream 2 [[1], [2]]).reads.map (·.contentLengthRead) = [1, 3] := by decide +kernel
  refine ⟨fun ⟨_, hcounted⟩ => ?_, hreads⟩
  have hthree : (3 : Int) ∈ (readNonSpecificStream 2 [[1], [2]]).reads.map (·.contentLengthRead) := by
    rw [hreads]
    decide
  obtain ⟨r, hr, h3⟩ := List.mem_map.1 hthree
  have := hcounted r hr
  rw [Counted, h3, received] at this
  have hlen : ([[1], [2]] : Channel).flatten.length = 2 := rfl
  omega

end WorldWind.Retrieve
