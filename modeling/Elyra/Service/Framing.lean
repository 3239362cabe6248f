import Mathlib.Data.List.TakeWhile
import Elyra.Service.IpcServer

set_option autoImplicit false

/-! # Framing

How a connection cuts the byte stream of its client into lines. `takeLines` is what the loop of
`_handle_client` makes of a sequence of chunks, apart from what processing a line does: the lines it
processes, and the error it closes the connection with. It is compared with `cutLines`, which cuts
the whole stream at once.

The buffer is only found too large while it holds no line feed. A line longer than the limit is
therefore noticed where a chunk ends inside it, beyond the limit; otherwise it is processed like any
other line, and the connection goes on with the lines after it (`takeLines_cases`). -/

namespace Elyra.Service

open Elyra.Python

variable {σ F : Type}

/-! ## The lines of a sequence of chunks -/

/-- The lines processed, and the error sent when the connection ends. -/
def takeLines : Bytes → List Bytes → List Bytes × Option (Response F)
  | buffer, [] => ([], if buffer = [] then none else some incompleteMessage)
  | buffer, chunk :: chunks =>
      if (buffer ++ chunk).length > maxRequestBytes ∧ lf ∉ buffer ++ chunk then
        ([], some messageTooLarge)
      else
        let (lines, rest) := cutLines (buffer ++ chunk)
        let (later, error) := takeLines rest chunks
        (lines ++ later, error)

section Transcript

variable (c : Connection σ F)

/-- Every line is processed and its response sent. -/
def transcript : List Bytes → σ → List (Event F)
  | [], _ => []
  | line :: lines, s =>
      match c.process line s with
      | (.error _, _) => [.processed line]
      | (.ok response, s) => .processed line :: .sent response :: transcript lines (c.send response s).2

/-- The state after that. -/
def exchanged : List Bytes → σ → σ
  | [], s => s
  | line :: lines, s =>
      match c.process line s with
      | (.error _, s) => s
      | (.ok response, s) => exchanged lines (c.send response s).2

/-- `_process_line` returns. -/
def Returns : Prop := ∀ line s, ∃ response s', c.process line s = (.ok response, s')

/-- Every response can be sent. -/
def Sends : Prop := ∀ response s, (c.send response s).1 = true

end Transcript

variable {c : Connection σ F}

theorem transcript_cons {line : Bytes} {s s' : σ} {response : Response F}
    (h : c.process line s = (.ok response, s')) (lines : List Bytes) :
    transcript c (line :: lines) s =
      .processed line :: .sent response :: transcript c lines (c.send response s').2 := by
  simp only [transcript, h]

theorem exchanged_cons {line : Bytes} {s s' : σ} {response : Response F}
    (h : c.process line s = (.ok response, s')) (lines : List Bytes) :
    exchanged c (line :: lines) s = exchanged c lines (c.send response s').2 := by
  simp only [exchanged, h]

theorem transcript_append (hret : Returns c) (a b : List Bytes) (s : σ) :
    transcript c (a ++ b) s = transcript c a s ++ transcript c b (exchanged c a s) := by
  induction a generalizing s with
  | nil => rfl
  | cons line a ih =>
      obtain ⟨response, s', h⟩ := hret line s
      rw [List.cons_append, transcript_cons h, transcript_cons h, exchanged_cons h, ih]
      rfl

/-! ## The loop processes these lines -/

theorem send_of_sends (hsend : Sends c) (response : Response F) (s : Session σ F) :
    s.send c response = (true, ⟨(c.send response s.state).2, s.events ++ [.sent response]⟩) := by
  have h := hsend response s.state
  unfold Session.send
  cases hs : c.send response s.state with
  | mk ok state =>
      rw [hs] at h
      simp only at h
      rw [h]

/-- The loop over the buffer processes all its lines, provided that what follows its first line is
    within the limit. -/
theorem drain_eq (hret : Returns c) (hsend : Sends c) :
    ∀ (fuel : Nat) (buffer : Bytes) (s : Session σ F), buffer.length ≤ fuel →
      (∀ line rest, splitLf buffer = some (line, rest) → rest.length ≤ maxRequestBytes) →
      drain c fuel buffer s = (some (cutLines buffer).2,
        ⟨exchanged c (cutLines buffer).1 s.state,
          s.events ++ transcript c (cutLines buffer).1 s.state⟩) := by
  intro fuel
  induction fuel with
  | zero =>
      intro buffer s hfuel _
      obtain rfl : buffer = [] := List.eq_nil_of_length_eq_zero (by omega)
      simp [drain, cutLines, exchanged, transcript]
  | succ fuel ih =>
      intro buffer s hfuel hshort
      cases hsplit : splitLf buffer with
      | none =>
          have hcut := cutLines_rest (splitLf_eq_none.1 hsplit)
          simp only [drain, hsplit, hcut, exchanged, transcript, List.append_nil]
      | some p =>
          obtain ⟨line, rest⟩ := p
          obtain ⟨rfl, hline⟩ := splitLf_eq_some hsplit
          have hrest : rest.length ≤ maxRequestBytes := hshort line rest hsplit
          obtain ⟨response, s', hproc⟩ := hret line s.state
          have hnext := ih rest ⟨(c.send response s').2,
            s.events ++ [.processed line] ++ [.sent response]⟩
            (by simp only [List.length_append, List.length_cons] at hfuel; omega)
            (fun line' rest' h' => by
              obtain ⟨rfl, -⟩ := splitLf_eq_some h'
              simp only [List.length_append, List.length_cons] at hrest
              omega)
          rw [cutLines_line hline]
          simp only [drain, hsplit, Session.process, hproc, send_of_sends hsend,
            if_neg (Nat.not_lt.2 hrest), hnext, exchanged_cons hproc, transcript_cons hproc]
          simp

/-- The chunks of a stream, each of 1 to 4096 bytes. -/
def Chunked (chunks : List Bytes) : Prop := ∀ chunk ∈ chunks, chunk ≠ [] ∧ chunk.length ≤ 4096

/-- What follows the first line feed lies in the chunk that brought it. -/
theorem short_after_line {buffer chunk : Bytes} (hbuffer : lf ∉ buffer)
    (hchunk : chunk.length ≤ 4096) {line rest : Bytes}
    (h : splitLf (buffer ++ chunk) = some (line, rest)) : rest.length ≤ maxRequestBytes := by
  obtain ⟨heq, -⟩ := splitLf_eq_some h
  have hlen := congrArg List.length heq
  simp only [List.length_append, List.length_cons] at hlen
  -- the line feed is not in the buffer, so the line is at least as long as the buffer
  have hline : buffer.length ≤ line.length := by
    by_contra hlt
    have hget := congrArg (fun l => l[line.length]?) heq
    simp only [List.getElem?_append_right (Nat.le_refl _), Nat.sub_self, List.getElem?_cons_zero,
      List.getElem?_append_left (Nat.lt_of_not_le hlt)] at hget
    exact hbuffer (List.mem_of_getElem? hget)
  unfold maxRequestBytes
  omega

/-- **The loop is `takeLines`.** On a stream that ends, the connection processes the lines of
    `takeLines`, answers each, and sends its error. -/
theorem serve_eq (hret : Returns c) (hsend : Sends c) (chunks : List Bytes)
    (hchunks : Chunked chunks) (buffer : Bytes) (hbuffer : lf ∉ buffer) (s : Session σ F) :
    (serve c (chunks.map .chunk ++ [.chunk []]) buffer s).events =
      s.events ++ transcript c (takeLines (F := F) buffer chunks).1 s.state ++
        ((takeLines buffer chunks).2.map Event.sent).toList := by
  induction chunks generalizing buffer s with
  | nil =>
      simp only [List.map_nil, List.nil_append, serve, takeLines, transcript, List.append_nil]
      by_cases hb : buffer = []
      · simp [hb]
      · simp [hb, Session.send]
  | cons chunk chunks ih =>
      obtain ⟨hne, hlen⟩ := hchunks chunk (List.mem_cons_self ..)
      simp only [List.map_cons, List.cons_append, serve, if_neg hne, takeLines]
      split
      · simp [Session.send, transcript]
      · have hdrain := drain_eq hret hsend (buffer ++ chunk).length (buffer ++ chunk) s le_rfl
          fun line rest h => short_after_line hbuffer hlen h
        simp only [hdrain]
        rw [ih (fun x hx => hchunks x (List.mem_cons_of_mem _ hx)) _ (lf_not_mem_cutLines _).1]
        simp only [transcript_append hret, List.append_assoc]

/-! ## Where a line beyond the limit is noticed -/

/-- What is left in the buffer after a chunk is within the limit, unless the connection ends. -/
theorem rest_le {buffer chunk : Bytes} (hbuffer : lf ∉ buffer) (hchunk : chunk.length ≤ 4096)
    (h : ¬ ((buffer ++ chunk).length > maxRequestBytes ∧ lf ∉ buffer ++ chunk)) :
    (cutLines (buffer ++ chunk)).2.length ≤ maxRequestBytes := by
  cases hsplit : splitLf (buffer ++ chunk) with
  | none =>
      have hlf := splitLf_eq_none.1 hsplit
      rw [cutLines_rest hlf]
      exact Nat.not_lt.1 fun hlong => h ⟨hlong, hlf⟩
  | some p =>
      obtain ⟨line, rest⟩ := p
      have hrest := short_after_line hbuffer hchunk hsplit
      obtain ⟨heq, hline⟩ := splitLf_eq_some hsplit
      have hcut := congrArg List.length (joinLines_cutLines rest)
      rw [List.length_append] at hcut
      rw [heq, cutLines_line hline]
      show (cutLines rest).2.length ≤ maxRequestBytes
      omega

/-- Either no turn leaves more than the limit in the buffer, and all lines are processed; or the
    connection ends after the first turn that does, with the lines before it processed. -/
theorem takeLines_cases (chunks : List Bytes) (hchunks : Chunked chunks) (buffer : Bytes)
    (hbuffer : lf ∉ buffer) (hshort : buffer.length ≤ maxRequestBytes) :
    ((∀ taken, taken <+: chunks →
        (cutLines (buffer ++ taken.flatten)).2.length ≤ maxRequestBytes) ∧
      takeLines (F := F) buffer chunks = ((cutLines (buffer ++ chunks.flatten)).1,
        if (cutLines (buffer ++ chunks.flatten)).2 = [] then none else some incompleteMessage)) ∨
    ∃ taken, taken <+: chunks ∧ maxRequestBytes < (cutLines (buffer ++ taken.flatten)).2.length ∧
      takeLines (F := F) buffer chunks =
        ((cutLines (buffer ++ taken.flatten)).1, some messageTooLarge) ∧
      ∀ before, before <+: taken → before ≠ taken →
        (cutLines (buffer ++ before.flatten)).2.length ≤ maxRequestBytes := by
  induction chunks generalizing buffer with
  | nil =>
      refine .inl ⟨?_, ?_⟩
      · intro taken htaken
        rw [List.prefix_nil.1 htaken, List.flatten_nil, List.append_nil, cutLines_rest hbuffer]
        exact hshort
      · rw [List.flatten_nil, List.append_nil, cutLines_rest hbuffer]
        rfl
  | cons chunk chunks ih =>
      obtain ⟨-, hlen⟩ := hchunks chunk (List.mem_cons_self ..)
      by_cases hclose : (buffer ++ chunk).length > maxRequestBytes ∧ lf ∉ buffer ++ chunk
      · refine .inr ⟨[chunk], ⟨chunks, rfl⟩, ?_, ?_, ?_⟩
        · rw [List.flatten_cons, List.flatten_nil, List.append_nil, cutLines_rest hclose.2]
          exact hclose.1
        · rw [List.flatten_cons, List.flatten_nil, List.append_nil, cutLines_rest hclose.2]
          simp only [takeLines, if_pos hclose]
        · intro before hbefore hne
          obtain rfl : before = [] := by
            rcases List.prefix_cons_iff.1 hbefore with h | ⟨t, rfl, ht⟩
            · exact h
            · rw [List.prefix_nil.1 ht] at hne
              exact absurd rfl hne
          rw [List.flatten_nil, List.append_nil, cutLines_rest hbuffer]
          exact hshort
      · -- the chunk's lines are processed, and the rest of it is the next buffer
        have hrest := rest_le hbuffer hlen hclose
        have hcut : ∀ data, cutLines (buffer ++ (chunk ++ data)) =
            ((cutLines (buffer ++ chunk)).1 ++ (cutLines ((cutLines (buffer ++ chunk)).2 ++ data)).1,
              (cutLines ((cutLines (buffer ++ chunk)).2 ++ data)).2) := by
          intro data
          rw [← List.append_assoc]
          exact cutLines_append _ _
        have hstep : takeLines (F := F) buffer (chunk :: chunks) =
            ((cutLines (buffer ++ chunk)).1 ++ (takeLines (F := F) (cutLines (buffer ++ chunk)).2 chunks).1,
              (takeLines (cutLines (buffer ++ chunk)).2 chunks).2) := by
          simp only [takeLines, if_neg hclose]
        -- a turn of the longer run is the first one or a turn of the rest
        have hturn : ∀ taken : List Bytes, taken <+: chunk :: chunks →
            taken = [] ∨ ∃ later, taken = chunk :: later ∧ later <+: chunks := fun taken h =>
          List.prefix_cons_iff.1 h
        rcases ih (fun x hx => hchunks x (List.mem_cons_of_mem _ hx)) _ (lf_not_mem_cutLines _).1
            hrest with ⟨hall, heq⟩ | ⟨taken, htaken, hlong, heq, hfirst⟩
        · refine .inl ⟨?_, ?_⟩
          · intro taken htaken
            rcases hturn taken htaken with rfl | ⟨later, rfl, hlater⟩
            · rw [List.flatten_nil, List.append_nil, cutLines_rest hbuffer]
              exact hshort
            · rw [List.flatten_cons, hcut]
              exact hall later hlater
          · rw [hstep, heq, List.flatten_cons, hcut]
        · refine .inr ⟨chunk :: taken, (List.prefix_cons_inj chunk).2 htaken, ?_, ?_, ?_⟩
          · rw [List.flatten_cons, hcut]
            exact hlong
          · rw [hstep, heq, List.flatten_cons, hcut]
          · intro before hbefore hne
            rcases List.prefix_cons_iff.1 hbefore with rfl | ⟨later, rfl, hlater⟩
            · rw [List.flatten_nil, List.append_nil, cutLines_rest hbuffer]
              exact hshort
            · rw [List.flatten_cons, hcut]
              exact hfirst later hlater fun h => hne (by rw [h])

/-! ## Framing -/

/-- The lines before the first one beyond the limit. -/
def admitted (stream : Bytes) : List Bytes :=
  (cutLines stream).1.takeWhile fun line => line.length ≤ maxRequestBytes

/-- The framing a client may count on: the lines before the first one beyond the limit are
    processed, in order and once each, with one response for each, and no other line is. Where no line
    is beyond the limit, a rest within it is answered by `INCOMPLETE_MESSAGE`, and there is no other
    response. -/
structure Framed (c : Connection σ F) (stream : Bytes) (s : σ) (events : List (Event F)) : Prop where
  lines : ∃ tail, events = transcript c (admitted stream) s ++ tail ∧
    ∀ e ∈ tail, ∃ response, e = .sent response
  complete : admitted stream = (cutLines stream).1 → (cutLines stream).2 = [] →
    events = transcript c (admitted stream) s
  incomplete : admitted stream = (cutLines stream).1 → (cutLines stream).2 ≠ [] →
    (cutLines stream).2.length ≤ maxRequestBytes →
    events = transcript c (admitted stream) s ++ [.sent incompleteMessage]

/-- The first line beyond the limit, if there is one, is cut: a chunk ends inside it or at its line
    feed, after more bytes of it than the limit. -/
def LongLineCut (chunks : List Bytes) : Prop :=
  ∀ lines long after, (∀ line ∈ lines, lf ∉ line ∧ line.length ≤ maxRequestBytes) → lf ∉ long →
    maxRequestBytes < long.length → chunks.flatten = joinLines lines ++ (long ++ lf :: after) →
    ∃ taken, taken <+: chunks ∧
      (joinLines lines).length + maxRequestBytes < taken.flatten.length ∧
      taken.flatten.length ≤ (joinLines lines).length + long.length

def processedLines (events : List (Event F)) : List Bytes :=
  events.filterMap fun
    | .processed line => some line
    | .sent _ => none

theorem processedLines_transcript (hret : Returns c) (lines : List Bytes) (s : σ) :
    processedLines (transcript c lines s) = lines := by
  induction lines generalizing s with
  | nil => rfl
  | cons line lines ih =>
      obtain ⟨response, s', h⟩ := hret line s
      have htail := ih (c.send response s').2
      rw [transcript_cons h]
      simp only [processedLines, List.filterMap_cons] at htail ⊢
      rw [htail]

theorem processedLines_append (a b : List (Event F)) :
    processedLines (a ++ b) = processedLines a ++ processedLines b := by
  simp [processedLines]

theorem processedLines_sent {tail : List (Event F)} (h : ∀ e ∈ tail, ∃ response, e = .sent response) :
    processedLines tail = [] := by
  rw [processedLines, List.filterMap_eq_nil_iff]
  intro e he
  obtain ⟨response, rfl⟩ := h e he
  rfl

theorem Framed.processed {stream : Bytes} {s : σ} {events : List (Event F)}
    (h : Framed c stream s events) (hret : Returns c) :
    processedLines events = admitted stream := by
  obtain ⟨tail, rfl, htail⟩ := h.lines
  rw [processedLines_append, processedLines_transcript hret, processedLines_sent htail,
    List.append_nil]

/-- The lines of a stream that goes on with a line beyond the limit. -/
theorem admitted_long {lines : List Bytes} {long after : Bytes}
    (hlines : ∀ line ∈ lines, lf ∉ line ∧ line.length ≤ maxRequestBytes) (hlong : lf ∉ long)
    (hlen : maxRequestBytes < long.length) :
    admitted (joinLines lines ++ (long ++ lf :: after)) = lines := by
  have hcut : cutLines (joinLines lines ++ (long ++ lf :: after)) =
      (lines ++ long :: (cutLines after).1, (cutLines after).2) := by
    have h := joinLines_cutLines after
    have heq : joinLines lines ++ (long ++ lf :: after) =
        joinLines (lines ++ long :: (cutLines after).1) ++ (cutLines after).2 := by
      rw [joinLines_append, joinLines_cons, List.append_assoc, List.append_assoc, List.cons_append, h]
    rw [heq]
    refine cutLines_joinLines ?_ (lf_not_mem_cutLines after).1
    intro line hline
    rcases List.mem_append.1 hline with hline | hline
    · exact (hlines line hline).1
    · rcases List.mem_cons.1 hline with rfl | hline
      · exact hlong
      · exact (lf_not_mem_cutLines after).2 line hline
  rw [admitted, hcut, List.takeWhile_append_of_pos]
  · simp [Nat.not_le.2 hlen]
  · intro line hline
    simpa using (hlines line hline).2

/-- Where a line of the stream is beyond the limit, there is a first one. -/
theorem exists_long {stream : Bytes} (h : admitted stream ≠ (cutLines stream).1) :
    ∃ long after, lf ∉ long ∧ maxRequestBytes < long.length ∧
      stream = joinLines (admitted stream) ++ (long ++ lf :: after) := by
  have hsplit := List.takeWhile_append_dropWhile (p := fun line : Bytes =>
    decide (line.length ≤ maxRequestBytes)) (l := (cutLines stream).1)
  cases hd : (cutLines stream).1.dropWhile fun line => line.length ≤ maxRequestBytes with
  | nil =>
      rw [hd, List.append_nil] at hsplit
      exact absurd hsplit h
  | cons long more =>
      have hhead := List.head_dropWhile_not (fun line : Bytes =>
        decide (line.length ≤ maxRequestBytes)) (l := (cutLines stream).1) (by rw [hd]; simp)
      simp only [hd, List.head_cons, decide_eq_false_iff_not, Nat.not_le] at hhead
      rw [hd] at hsplit
      refine ⟨long, joinLines more ++ (cutLines stream).2, ?_, hhead, ?_⟩
      · refine (lf_not_mem_cutLines stream).2 long ?_
        rw [← hsplit]
        simp
      · have hjoin := joinLines_cutLines stream
        rw [← hsplit, joinLines_append, joinLines_cons] at hjoin
        rw [admitted]
        simpa using hjoin.symm

theorem admitted_lines (stream : Bytes) :
    ∀ line ∈ admitted stream, lf ∉ line ∧ line.length ≤ maxRequestBytes := by
  intro line hline
  refine ⟨(lf_not_mem_cutLines stream).2 line (List.takeWhile_subset _ hline), ?_⟩
  simpa using List.all_eq_true.1 (List.all_takeWhile (l := (cutLines stream).1)) line hline

/-- A chunk that ends inside a line beyond the limit leaves that much of it in the buffer. -/
theorem cutLines_inside {lines : List Bytes} {long after data : Bytes}
    (hlines : ∀ line ∈ lines, lf ∉ line ∧ line.length ≤ maxRequestBytes) (hlong : lf ∉ long)
    (hdata : data <+: joinLines lines ++ (long ++ lf :: after))
    (hlower : (joinLines lines).length ≤ data.length)
    (hupper : data.length ≤ (joinLines lines).length + long.length) :
    cutLines data = (lines, long.take (data.length - (joinLines lines).length)) := by
  have htake := List.prefix_iff_eq_take.1 hdata
  have hcap : data.length - (joinLines lines).length ≤ long.length := by omega
  rw [List.take_append, List.take_of_length_le hlower, List.take_append_of_le_length hcap] at htake
  have hcut := @cutLines_joinLines lines (long.take (data.length - (joinLines lines).length))
    (fun line hline => (hlines line hline).1) fun hmem => hlong (List.mem_of_mem_take hmem)
  rw [← htake] at hcut
  exact hcut

theorem prefix_flatten {taken chunks : List Bytes} (h : taken <+: chunks) :
    taken.flatten <+: chunks.flatten := by
  obtain ⟨later, rfl⟩ := h
  exact ⟨later.flatten, List.flatten_append.symm⟩

/-- Where no turn leaves more than the limit in the buffer, no line beyond the limit is cut. -/
theorem longLineCut_iff_none {chunks : List Bytes}
    (hall : ∀ taken, taken <+: chunks → (cutLines taken.flatten).2.length ≤ maxRequestBytes) :
    LongLineCut chunks ↔ admitted chunks.flatten = (cutLines chunks.flatten).1 := by
  constructor
  · intro hcut
    by_contra hne
    obtain ⟨long, after, hlf, hlen, heq⟩ := exists_long hne
    have hlines := admitted_lines chunks.flatten
    obtain ⟨taken, htaken, hlower, hupper⟩ := hcut _ long after hlines hlf hlen heq
    have hstart := prefix_flatten htaken
    rw [heq] at hstart
    have hinside := cutLines_inside hlines hlf hstart (by omega) hupper
    have hshort := hall taken htaken
    rw [hinside, List.length_take] at hshort
    omega
  · intro hadm lines long after hlines hlf hlen heq
    have hlong : admitted (joinLines lines ++ (long ++ lf :: after)) = lines :=
      admitted_long hlines hlf hlen
    rw [← heq, hadm, heq] at hlong
    have hjoin := joinLines_cutLines (joinLines lines ++ (long ++ lf :: after))
    rw [hlong] at hjoin
    have hmem : lf ∈ (cutLines (joinLines lines ++ (long ++ lf :: after))).2 := by
      rw [List.append_cancel_left hjoin]
      simp
    exact absurd hmem (lf_not_mem_cutLines _).1

/-- What the stream holds after the first turn that leaves more than the limit in the buffer. -/
theorem admitted_of_long_rest {taken chunks : List Bytes} (htaken : taken <+: chunks)
    (hlong : maxRequestBytes < (cutLines taken.flatten).2.length)
    (hshort : ∀ line ∈ (cutLines taken.flatten).1, line.length ≤ maxRequestBytes) :
    admitted chunks.flatten = (cutLines taken.flatten).1 ∧
      (admitted chunks.flatten = (cutLines chunks.flatten).1 →
        maxRequestBytes < (cutLines chunks.flatten).2.length) := by
  obtain ⟨later, rfl⟩ := htaken
  have hcut := cutLines_append taken.flatten later.flatten
  rw [← List.flatten_append] at hcut
  -- the next line, if there is one, begins with the long rest
  cases hsplit : splitLf ((cutLines taken.flatten).2 ++ later.flatten) with
  | none =>
      have hrest := cutLines_rest (splitLf_eq_none.1 hsplit)
      rw [hrest, List.append_nil] at hcut
      refine ⟨?_, fun _ => ?_⟩
      · rw [admitted, hcut, List.takeWhile_eq_self_iff]
        simpa using hshort
      · rw [hcut]
        simp only [List.length_append]
        omega
  | some p =>
      obtain ⟨line, rest⟩ := p
      obtain ⟨heq, hline⟩ := splitLf_eq_some hsplit
      have hlen : maxRequestBytes < line.length := by
        refine lt_of_lt_of_le hlong ?_
        by_contra hlt
        have hget := congrArg (fun l => l[line.length]?) heq
        simp only [List.getElem?_append_right (Nat.le_refl _), Nat.sub_self,
          List.getElem?_cons_zero, List.getElem?_append_left (Nat.lt_of_not_le hlt)] at hget
        exact (lf_not_mem_cutLines taken.flatten).1 (List.mem_of_getElem? hget)
      have hstream : (taken ++ later).flatten =
          joinLines (cutLines taken.flatten).1 ++ (line ++ lf :: rest) := by
        rw [List.flatten_append, ← heq, ← List.append_assoc, joinLines_cutLines]
      have hadm : admitted (joinLines (cutLines taken.flatten).1 ++ (line ++ lf :: rest)) =
          (cutLines taken.flatten).1 :=
        admitted_long (fun l hl => ⟨(lf_not_mem_cutLines _).2 l hl, hshort l hl⟩) hline hlen
      rw [← hstream] at hadm
      refine ⟨hadm, fun hall => ?_⟩
      rw [hadm, hcut, heq, cutLines_line hline] at hall
      simp at hall

/-- Where a turn leaves more than the limit in the buffer, the first line beyond the limit is cut
    exactly if the lines before that turn are within it. -/
theorem longLineCut_iff_short {taken chunks : List Bytes} (htaken : taken <+: chunks)
    (hlong : maxRequestBytes < (cutLines taken.flatten).2.length)
    (hfirst : ∀ before, before <+: taken → before ≠ taken →
      (cutLines before.flatten).2.length ≤ maxRequestBytes) :
    LongLineCut chunks ↔ ∀ line ∈ (cutLines taken.flatten).1, line.length ≤ maxRequestBytes := by
  constructor
  · intro hcut
    by_contra hne
    have hadm : admitted taken.flatten ≠ (cutLines taken.flatten).1 := by
      intro h
      rw [← h] at hne
      exact hne fun line hline => (admitted_lines _ line hline).2
    obtain ⟨long, after, hlf, hlen, heq⟩ := exists_long hadm
    have hlines := admitted_lines taken.flatten
    obtain ⟨later, hlater⟩ := prefix_flatten htaken
    obtain ⟨taken', htaken', hlower, hupper⟩ := hcut _ long (after ++ later) hlines hlf hlen
      (by rw [← hlater]; nth_rewrite 1 [heq]; simp)
    have hlength := congrArg List.length heq
    simp only [List.length_append, List.length_cons] at hlength
    -- that turn comes before the one that closes the connection
    have hbefore : taken' <+: taken := by
      rcases List.prefix_or_prefix_of_prefix htaken' htaken with h | h
      · exact h
      · have := (prefix_flatten h).length_le
        omega
    have hshort := hfirst taken' hbefore fun h => by rw [h] at hupper; omega
    have hstart := prefix_flatten hbefore
    rw [heq] at hstart
    rw [cutLines_inside hlines hlf hstart (by omega) hupper, List.length_take] at hshort
    omega
  · intro hshort lines long after hlines hlf hlen heq
    have hadm : admitted (joinLines lines ++ (long ++ lf :: after)) = lines :=
      admitted_long hlines hlf hlen
    rw [← heq, (admitted_of_long_rest htaken hlong hshort).1] at hadm
    have hjoin := congrArg List.length (joinLines_cutLines taken.flatten)
    rw [hadm, List.length_append] at hjoin
    refine ⟨taken, htaken, by omega, ?_⟩
    by_contra hgt
    -- otherwise the line feed of the long line would be in the rest
    obtain ⟨later, hlater⟩ := prefix_flatten htaken
    have hdata := joinLines_cutLines taken.flatten
    rw [heq, ← hdata, hadm, List.append_assoc] at hlater
    have htail := List.append_cancel_left hlater
    have hget := congrArg (fun l => l[long.length]?) htail
    simp only [List.getElem?_append_right (Nat.le_refl _), Nat.sub_self, List.getElem?_cons_zero,
      List.getElem?_append_left (show long.length < (cutLines taken.flatten).2.length by omega)]
      at hget
    exact (lf_not_mem_cutLines taken.flatten).1 (List.mem_of_getElem? hget)

/-- **Framing.** Whatever the chunks, the connection frames the stream as its client may expect
    exactly if the first line beyond the limit, where there is one, is cut by a chunk after more bytes
    than the limit. -/
theorem framed_iff_longLineCut (c : Connection σ F) (hret : Returns c) (hsend : Sends c)
    (chunks : List Bytes) (hchunks : Chunked chunks) (s : σ) :
    Framed c chunks.flatten s
        (serve c (chunks.map .chunk ++ [.chunk []]) [] ⟨s, []⟩).events ↔
      LongLineCut chunks := by
  rw [serve_eq hret hsend chunks hchunks [] (by simp), List.nil_append]
  rcases takeLines_cases (F := F) chunks hchunks [] (by simp) (Nat.zero_le _) with
    ⟨hall, heq⟩ | ⟨taken, htaken, hlong, heq, hfirst⟩
  · simp only [List.nil_append] at hall heq
    rw [longLineCut_iff_none hall, heq]
    constructor
    · intro h
      have hprocessed := h.processed hret
      rw [processedLines_append, processedLines_transcript hret, processedLines_sent, List.append_nil]
        at hprocessed
      · exact hprocessed.symm
      · intro e he
        split at he
        · exact absurd he (by simp)
        · exact ⟨incompleteMessage, by simpa using he⟩
    · intro hadm
      refine ⟨⟨_, by rw [hadm], ?_⟩, ?_, ?_⟩
      · intro e he
        split at he
        · exact absurd he (by simp)
        · exact ⟨incompleteMessage, by simpa using he⟩
      · intro _ hrest
        simp [hadm, hrest]
      · intro _ hrest _
        simp [hadm, hrest]
  · simp only [List.nil_append] at hlong heq hfirst
    rw [longLineCut_iff_short htaken hlong hfirst, heq]
    constructor
    · intro h
      have hprocessed := h.processed hret
      rw [processedLines_append, processedLines_transcript hret, processedLines_sent, List.append_nil]
        at hprocessed
      · rw [hprocessed]
        exact fun line hline => (admitted_lines _ line hline).2
      · intro e he
        exact ⟨messageTooLarge, by simpa using he⟩
    · intro hshort
      obtain ⟨hadm, hlast⟩ := admitted_of_long_rest htaken hlong hshort
      refine ⟨⟨_, by rw [hadm], ?_⟩, ?_, ?_⟩
      · intro e he
        exact ⟨messageTooLarge, by simpa using he⟩
      · intro hall hrest
        have h := hlast hall
        rw [hrest] at h
        exact absurd h (by simp)
      · intro hall _ hle
        have h := hlast hall
        omega

/-! ### A long line that no chunk cuts -/

/-- A connection that answers every line with the same response. -/
def echo : Connection Unit SampleFloat where
  process _ _ := (.ok (successResponse (py "r") .null), ())
  send _ _ := (true, ())

theorem echo_returns : Returns echo := fun _ _ => ⟨_, _, rfl⟩

theorem echo_sends : Sends echo := fun _ _ => rfl

/-- Three requests in two chunks, the second of which spans both. -/
def threeLines : List Bytes := [[97, lf, 98], [99, lf, 100, lf]]

theorem framed_of_short_line :
    Framed echo [97, lf, 98, 99, lf, 100, lf] ()
        (serve echo (threeLines.map .chunk ++ [.chunk []]) [] ⟨(), []⟩).events ∧
      admitted [97, lf, 98, 99, lf, 100, lf] = [[97], [98, 99], [100]] := by
  refine ⟨(framed_iff_longLineCut echo echo_returns echo_sends threeLines ?_ ()).2 ?_, by decide⟩
  · simp [Chunked, threeLines]
  · intro lines long after _ _ hlong heq
    have hlen := congrArg List.length heq
    simp only [threeLines, List.flatten_cons, List.flatten_nil, List.append_nil, List.length_append,
      List.length_cons, List.length_nil] at hlen
    simp only [maxRequestBytes] at hlong
    omega

/-- A line of `n` equal characters. -/
@[irreducible]
def filler (n : Nat) : Bytes := List.replicate n 97

theorem filler_length (n : Nat) : (filler n).length = n := by
  unfold filler
  exact List.length_replicate

theorem lf_not_mem_filler (n : Nat) : lf ∉ filler n := by
  unfold filler
  intro h
  exact absurd (List.eq_of_mem_replicate h) (by decide)

theorem filler_append (m n : Nat) : filler m ++ filler n = filler (m + n) := by
  unfold filler
  exact List.replicate_append_replicate

/-- Chunks that complete no line fill the buffer. -/
theorem takeLines_fill (k n : Nat) (chunks : List Bytes) (hlen : k + n * 4096 ≤ maxRequestBytes) :
    takeLines (F := F) (filler k) (List.replicate n (filler 4096) ++ chunks) =
      takeLines (filler (k + n * 4096)) chunks := by
  induction n generalizing k with
  | zero => rw [Nat.zero_mul, Nat.add_zero, List.replicate_zero, List.nil_append]
  | succ n ih =>
      have hshort : ¬ ((filler k ++ filler 4096).length > maxRequestBytes ∧
          lf ∉ filler k ++ filler 4096) := by
        rw [filler_append, filler_length]
        omega
      rw [List.replicate_succ, List.cons_append, takeLines, if_neg hshort, filler_append,
        cutLines_rest (lf_not_mem_filler _)]
      simp only [List.nil_append, Prod.eta]
      rw [ih (k + 4096) (by omega), show k + 4096 + n * 4096 = k + (n + 1) * 4096 by omega]

/-- A line of 65537 bytes, of which the first 65536 come in full chunks and the last one with the
    line feed, and a short line after it. -/
def longLineChunks : List Bytes :=
  List.replicate 16 (filler 4096) ++ [filler 1 ++ [lf], [98, lf]]

/-- The long line is processed, and so is the line after it. -/
theorem takeLines_longLineChunks :
    takeLines (F := F) [] longLineChunks = ([filler 65537, [98]], none) := by
  have hnil : filler 0 = [] := List.eq_nil_of_length_eq_zero (filler_length 0)
  have hfill := takeLines_fill (F := F) 0 16 [filler 1 ++ [lf], [98, lf]] (by decide)
  rw [hnil] at hfill
  have hjoin : filler (0 + 16 * 4096) ++ (filler 1 ++ [lf]) = filler 65537 ++ [lf] := by
    rw [← List.append_assoc, filler_append]
  have hcut : cutLines (filler 65537 ++ [lf]) = ([filler 65537], []) :=
    cutLines_line (lf_not_mem_filler 65537) []
  have hopen : ¬ ((filler 65537 ++ [lf]).length > maxRequestBytes ∧ lf ∉ filler 65537 ++ [lf]) :=
    fun h => h.2 (List.mem_append_right _ (List.mem_singleton.2 rfl))
  rw [longLineChunks, hfill, takeLines, hjoin, if_neg hopen, hcut]
  rfl

theorem longLineChunks_chunked : Chunked longLineChunks := by
  have hfiller : ∀ n, 0 < n → n ≤ 4096 → filler n ≠ [] ∧ (filler n).length ≤ 4096 := by
    intro n hpos hle
    rw [filler_length]
    refine ⟨fun h => ?_, hle⟩
    have hlen := filler_length n
    rw [h, List.length_nil] at hlen
    omega
  intro chunk hchunk
  rcases List.mem_append.1 hchunk with h | h
  · rw [List.eq_of_mem_replicate h]
    exact hfiller 4096 (by decide) (by decide)
  · simp only [List.mem_cons, List.not_mem_nil, or_false] at h
    rcases h with rfl | rfl
    · rw [List.length_append, filler_length]
      exact ⟨by simp, by decide⟩
    · exact ⟨by simp, by decide⟩

/-- **A line beyond the limit is processed**, and the connection goes on with the next line. -/
theorem long_line_not_framed :
    Chunked longLineChunks ∧ ¬ Framed echo longLineChunks.flatten ()
      (serve echo (longLineChunks.map .chunk ++ [.chunk []]) [] ⟨(), []⟩).events := by
  refine ⟨longLineChunks_chunked, fun h => ?_⟩
  have hprocessed := h.processed echo_returns
  rw [serve_eq echo_returns echo_sends _ longLineChunks_chunked [] (by simp),
    takeLines_longLineChunks, processedLines_append, processedLines_append,
    processedLines_transcript echo_returns] at hprocessed
  have hmem : filler 65537 ∈ admitted longLineChunks.flatten := by
    rw [← hprocessed]
    exact List.mem_append_left _ (List.mem_append_right _ (List.mem_cons_self ..))
  have hlen := (admitted_lines _ _ hmem).2
  rw [filler_length] at hlen
  exact absurd hlen (by decide)

end Elyra.Service
