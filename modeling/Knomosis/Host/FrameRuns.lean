import Knomosis.Host.Frame

/-!
# Connections as the host reads them

Whatever the pieces are in which the bytes of a connection arrive, the host gets the
requests that were written, in order, and then the close of the connection.  If the
bytes break off inside a request, the host gets those before it and an error that
says so.
-/

namespace Knomosis.Host

open Lib List

variable {σ ε : Type} {r : Reader σ ε UInt8} {content : σ → List UInt8} {s : σ} {maxFrameSize : ℕ}

section Pieces

variable (h : r.Serves content)

include h in
theorem readBytes_append {front rest : List UInt8} {n : ℕ} (hlen : front.length = n)
    (hcontent : content s = front ++ rest) :
    ∃ s', readBytes r n s = .ok (front, s') ∧ content s' = rest := by
  obtain ⟨s', hfill, hrest⟩ := h.fill_append hcontent
  rw [hlen] at hfill
  exact ⟨s', by rw [readBytes, hfill]; rfl, hrest⟩

include h in
theorem readBytes_short {n : ℕ} (hlen : (content s).length ≤ n) :
    ∃ s', readBytes r n s = .ok (content s, s') := by
  obtain ⟨s', hfill⟩ := h.fill_short hlen
  exact ⟨s', by rw [readBytes, hfill]; rfl⟩

include h in
theorem readHeaderBytes_append {header rest : List UInt8} (hlen : header.length = HEADER_LEN)
    (hcontent : content s = header ++ rest) :
    ∃ s', readHeaderBytes r s = .ok (header, s') ∧ content s' = rest := by
  obtain ⟨s', hread, hrest⟩ := readBytes_append h hlen hcontent
  refine ⟨s', ?_, hrest⟩
  rw [readHeaderBytes, hread]
  exact if_neg (by omega)

include h in
theorem readHeaderBytes_eof (hcontent : content s = []) :
    readHeaderBytes r s = .error .eofBeforeHeader := by
  obtain ⟨s', hread⟩ := readBytes_short h (s := s) (n := HEADER_LEN) (by simp [hcontent])
  rw [readHeaderBytes, hread, ok_bind, hcontent]
  rfl

include h in
theorem readHeaderBytes_short (hne : content s ≠ []) (hlen : (content s).length < HEADER_LEN) :
    readHeaderBytes r s = .error (.truncatedHeader (content s).length) := by
  obtain ⟨s', hread⟩ := readBytes_short h hlen.le
  have hpos := length_pos_iff.mpr hne
  rw [readHeaderBytes, hread]
  exact (if_pos hlen).trans (if_neg (by omega))

include h in
theorem readPayload_append {payload rest : List UInt8} {bound : ℕ} (hpos : 1 ≤ payload.length)
    (hle : payload.length ≤ bound) (hcontent : content s = payload ++ rest) :
    ∃ s', readPayload r payload.length bound s = .ok (payload, s') ∧ content s' = rest := by
  obtain ⟨s', hread, hrest⟩ := readBytes_append h rfl hcontent
  refine ⟨s', ?_, hrest⟩
  rw [readPayload, if_neg (by omega), if_neg (by omega), hread]
  exact if_neg (lt_irrefl _)

include h in
theorem readPayload_short {declared bound : ℕ} (hle : declared ≤ bound)
    (hlen : (content s).length < declared) :
    readPayload r declared bound s = .error (.truncatedPayload (content s).length declared) := by
  obtain ⟨s', hread⟩ := readBytes_short h hlen.le
  rw [readPayload, if_neg (by omega), if_neg (by omega), hread]
  exact if_pos hlen

end Pieces

section Frames

/-- A payload that a host with this limit takes. -/
def Fits (maxFrameSize : ℕ) (payload : List UInt8) : Prop :=
  1 ≤ payload.length ∧ payload.length ≤ maxFrameSize

def frame (payload : List UInt8) : List UInt8 := beBytes HEADER_LEN payload.length ++ payload

def hintedFrame (request : SignerHint × List UInt8) : List UInt8 :=
  beBytes SIGNER_HINT_LEN request.1.toNat ++ frame request.2

variable {payload : List UInt8} {request : SignerHint × List UInt8}

theorem Fits.header (hmax : maxFrameSize ≤ HARD_MAX_FRAME_SIZE)
    (hfits : Fits maxFrameSize payload) :
    beNat (beBytes HEADER_LEN payload.length) = payload.length := by
  have hle := hfits.2.trans hmax
  rw [beNat_beBytes]
  exact Nat.mod_eq_of_lt (by simp only [HARD_MAX_FRAME_SIZE, HEADER_LEN] at *; omega)

theorem Fits.le_limit (hmax : maxFrameSize ≤ HARD_MAX_FRAME_SIZE)
    (hfits : Fits maxFrameSize payload) : payload.length ≤ min maxFrameSize HARD_MAX_FRAME_SIZE :=
  le_min hfits.2 (hfits.2.trans hmax)

variable (h : r.Serves content) (hmax : maxFrameSize ≤ HARD_MAX_FRAME_SIZE)

include h hmax in
theorem readFrame_append {rest : List UInt8} (hfits : Fits maxFrameSize payload)
    (hcontent : content s = frame payload ++ rest) :
    ∃ s', readFrame r maxFrameSize s = .ok (payload, s') ∧ content s' = rest := by
  rw [frame, append_assoc] at hcontent
  obtain ⟨s₁, hheader, hcontent₁⟩ := readHeaderBytes_append h (by simp) hcontent
  obtain ⟨s', hpayload, hrest⟩ := readPayload_append h hfits.1 (hfits.le_limit hmax) hcontent₁
  refine ⟨s', ?_, hrest⟩
  rw [readFrame, hheader]
  exact (congrArg (fun n => readPayload r n _ s₁) (hfits.header hmax)).trans hpayload

include h hmax in
/-- A frame that breaks off, in its length or later. -/
theorem readFrame_truncated (hfits : Fits maxFrameSize payload)
    (hpart : content s <+: frame payload) (hne : content s ≠ [])
    (hproper : content s ≠ frame payload) :
    ∃ e, FrameError.IsTruncation e = true ∧ readFrame r maxFrameSize s = .error e := by
  rcases Nat.lt_or_ge (content s).length HEADER_LEN with hshort | hlong
  · refine ⟨.truncatedHeader (content s).length, rfl, ?_⟩
    rw [readFrame, readHeaderBytes_short h hne hshort]
    rfl
  have hlen : (content s).length < (frame payload).length :=
    lt_of_le_of_ne hpart.length_le fun heq => hproper (hpart.eq_of_length heq)
  obtain ⟨part, hcontent⟩ : beBytes HEADER_LEN payload.length <+: content s :=
    prefix_of_prefix_length_le (prefix_append _ _) hpart (by simpa using hlong)
  obtain ⟨s₁, hheader, hcontent₁⟩ := readHeaderBytes_append h (by simp) hcontent.symm
  have hpayload : (content s₁).length < payload.length := by
    rw [← hcontent, frame, length_append, length_append] at hlen
    rw [hcontent₁]
    omega
  refine ⟨.truncatedPayload (content s₁).length payload.length, rfl, ?_⟩
  rw [readFrame, hheader]
  exact (congrArg (fun n => readPayload r n _ s₁) (hfits.header hmax)).trans
    (readPayload_short h (hfits.le_limit hmax) hpayload)

include h hmax in
theorem readHintedFrame_append {rest : List UInt8} (hfits : Fits maxFrameSize request.2)
    (hcontent : content s = hintedFrame request ++ rest) :
    ∃ s', readHintedFrame r maxFrameSize s = .ok (request, s') ∧ content s' = rest := by
  rw [hintedFrame, frame, append_assoc, append_assoc] at hcontent
  obtain ⟨s₁, hhint, hcontent₁⟩ := readBytes_append h (n := SIGNER_HINT_LEN) (by simp) hcontent
  obtain ⟨s₂, hheader, hcontent₂⟩ := readBytes_append h (n := HEADER_LEN) (by simp) hcontent₁
  obtain ⟨s', hpayload, hrest⟩ := readPayload_append h hfits.1 (hfits.le_limit hmax) hcontent₂
  have hsigner : UInt64.ofNat (beNat (beBytes SIGNER_HINT_LEN request.1.toNat)) = request.1 := by
    rw [beNat_beBytes, Nat.mod_eq_of_lt (by simpa [SIGNER_HINT_LEN] using request.1.toNat_lt),
      UInt64.ofNat_toNat]
  refine ⟨s', ?_, hrest⟩
  rw [readHintedFrame, hhint]
  simp only [ok_bind, beBytes_length, lt_irrefl, if_false, hheader, hsigner, hfits.header hmax,
    hpayload]

include h hmax in
/-- A frame behind the number of a signer that breaks off: in the number, in the length or
later. -/
theorem readHintedFrame_truncated (hfits : Fits maxFrameSize request.2)
    (hpart : content s <+: hintedFrame request) (hne : content s ≠ [])
    (hproper : content s ≠ hintedFrame request) :
    ∃ e, FrameError.IsTruncation e = true ∧ readHintedFrame r maxFrameSize s = .error e := by
  have hpos := length_pos_iff.mpr hne
  rcases Nat.lt_or_ge (content s).length SIGNER_HINT_LEN with hshort | hlong
  · obtain ⟨s', hread⟩ := readBytes_short h hshort.le
    refine ⟨.truncatedHint (content s).length, rfl, ?_⟩
    rw [readHintedFrame, hread]
    exact (if_pos hshort).trans (if_neg (by omega))
  have hlen : (content s).length < (hintedFrame request).length :=
    lt_of_le_of_ne hpart.length_le fun heq => hproper (hpart.eq_of_length heq)
  obtain ⟨part, hcontent⟩ : beBytes SIGNER_HINT_LEN request.1.toNat <+: content s :=
    prefix_of_prefix_length_le (prefix_append _ _) hpart (by simpa using hlong)
  obtain ⟨s₁, hhint, hcontent₁⟩ := readBytes_append h (n := SIGNER_HINT_LEN) (by simp) hcontent.symm
  have hpart₁ : content s₁ <+: frame request.2 := by
    rw [hcontent₁]
    rw [← hcontent, hintedFrame] at hpart
    exact (prefix_append_right_inj _).mp hpart
  have hlen₁ : (content s₁).length < (frame request.2).length := by
    rw [← hcontent, hintedFrame, length_append, length_append] at hlen
    rw [hcontent₁]
    omega
  rcases Nat.lt_or_ge (content s₁).length HEADER_LEN with hshort | hlong₁
  · obtain ⟨s', hread⟩ := readBytes_short h hshort.le
    refine ⟨.truncatedHintedFrame (content s₁).length, rfl, ?_⟩
    rw [readHintedFrame, hhint]
    simp only [ok_bind, beBytes_length, lt_irrefl, if_false, hread, if_pos hshort]
  obtain ⟨part₂, hcontent₂⟩ : beBytes HEADER_LEN request.2.length <+: content s₁ :=
    prefix_of_prefix_length_le (prefix_append _ _) hpart₁ (by simpa using hlong₁)
  obtain ⟨s₂, hheader, hrest⟩ := readBytes_append h (n := HEADER_LEN) (by simp) hcontent₂.symm
  have hpayload : (content s₂).length < request.2.length := by
    rw [← hcontent₂, frame, length_append, length_append] at hlen₁
    rw [hrest]
    omega
  refine ⟨.truncatedPayload (content s₂).length request.2.length, rfl, ?_⟩
  rw [readHintedFrame, hhint]
  simp only [ok_bind, beBytes_length, lt_irrefl, if_false, hheader, hfits.header hmax,
    readPayload_short h (hfits.le_limit hmax) hpayload]
  rfl

end Frames

section Connections

variable {payload : List UInt8} {request : SignerHint × List UInt8} {P : FrameError ε → Prop}
variable (h : r.Serves content) (hmax : maxFrameSize ≤ HARD_MAX_FRAME_SIZE)

include h in
theorem yields_eof (hinted : Bool) (hcontent : content s = []) :
    Yields r maxFrameSize ⟨some hinted⟩ s [] .eofBeforeHeader := by
  refine .stop ?_
  cases hinted with
  | false =>
    simp only [readNext, readFrame, readHeaderBytes_eof h hcontent]
    rfl
  | true =>
    obtain ⟨s', hread⟩ := readBytes_short h (s := s) (n := SIGNER_HINT_LEN) (by simp [hcontent])
    simp only [readNext, readHintedFrame, hread, hcontent]
    rfl

variable {payloads : List (List UInt8)} {tail rest : List UInt8}
variable {requests : List (SignerHint × List UInt8)}

include h hmax in
/-- Legacy frames in front of bytes of which it is known what they come to. -/
theorem yields_frames
    (htail : ∀ s, content s = tail → ∃ e, P e ∧ Yields r maxFrameSize ⟨some false⟩ s [] e)
    (hfits : ∀ p ∈ payloads, Fits maxFrameSize p)
    (hcontent : content s = (payloads.map frame).flatten ++ tail) :
    ∃ e, P e ∧ Yields r maxFrameSize ⟨some false⟩ s (payloads.map (legacySignerHint, ·)) e := by
  induction payloads generalizing s with
  | nil => exact htail s hcontent
  | cons p _ ih =>
    rw [map_cons, flatten_cons, append_assoc] at hcontent
    obtain ⟨s', hread, hrest⟩ := readFrame_append h hmax (hfits p mem_cons_self) hcontent
    obtain ⟨e, he, hyields⟩ := ih (fun x hx => hfits x (mem_cons_of_mem p hx)) hrest
    refine ⟨e, he, .next ?_ hyields⟩
    simp only [readNext, hread]
    rfl

include h hmax in
theorem yields_hintedFrames
    (htail : ∀ s, content s = tail → ∃ e, P e ∧ Yields r maxFrameSize ⟨some true⟩ s [] e)
    (hfits : ∀ q ∈ requests, Fits maxFrameSize q.2)
    (hcontent : content s = (requests.map hintedFrame).flatten ++ tail) :
    ∃ e, P e ∧ Yields r maxFrameSize ⟨some true⟩ s requests e := by
  induction requests generalizing s with
  | nil => exact htail s hcontent
  | cons q _ ih =>
    rw [map_cons, flatten_cons, append_assoc] at hcontent
    obtain ⟨s', hread, hrest⟩ := readHintedFrame_append h hmax (hfits q mem_cons_self) hcontent
    obtain ⟨e, he, hyields⟩ := ih (fun x hx => hfits x (mem_cons_of_mem q hx)) hrest
    refine ⟨e, he, .next ?_ hyields⟩
    simp only [readNext, hread]
    rfl

/-- The first call decides what the connection is. -/
theorem Yields.of_readNext_eq {conn conn' : ConnReader} {s' : σ} {e : FrameError ε}
    (heq : readNext r conn maxFrameSize s = readNext r conn' maxFrameSize s')
    (hyields : Yields r maxFrameSize conn' s' requests e) :
    Yields r maxFrameSize conn s requests e := by
  cases hyields with
  | stop hread => exact .stop (heq.trans hread)
  | next hread hrest => exact .next (heq.trans hread) hrest

theorem readNext_legacy
    (hhead : ∀ head s', readHeaderBytes r s = .ok (head, s') → head ≠ KNH2_PREAMBLE) :
    readNext r .new maxFrameSize s = readNext r ⟨some false⟩ maxFrameSize s := by
  simp only [readNext, ConnReader.new, negotiateConnection, readFrame]
  cases hread : readHeaderBytes r s with
  | error => rfl
  | ok result =>
    obtain ⟨head, s'⟩ := result
    simp only [ok_bind, if_neg (hhead head s' hread)]
    rfl

include h in
theorem readNext_hinted (hcontent : content s = KNH2_PREAMBLE ++ rest) :
    ∃ s', readNext r .new maxFrameSize s = readNext r ⟨some true⟩ maxFrameSize s' ∧
      content s' = rest := by
  obtain ⟨s', hread, hrest⟩ := readHeaderBytes_append h rfl hcontent
  refine ⟨s', ?_, hrest⟩
  simp only [readNext, ConnReader.new, negotiateConnection, hread, ok_bind, if_true]

theorem Fits.header_ne_preamble (hmax : maxFrameSize ≤ HARD_MAX_FRAME_SIZE)
    (hfits : Fits maxFrameSize payload) : beBytes HEADER_LEN payload.length ≠ KNH2_PREAMBLE := by
  intro heq
  have hnat := hfits.header hmax
  have hle := hfits.2.trans hmax
  have hmagic : beNat KNH2_PREAMBLE = 1263421490 := by decide
  rw [heq, hmagic] at hnat
  simp only [HARD_MAX_FRAME_SIZE] at hle
  omega

include h hmax in
theorem readNext_of_start (hfits : Fits maxFrameSize payload)
    (hstart : content s <+: frame payload ++ rest) :
    readNext r .new maxFrameSize s = readNext r ⟨some false⟩ maxFrameSize s := by
  apply readNext_legacy
  intro head s' hread
  by_cases hnil : content s = []
  · rw [readHeaderBytes_eof h hnil] at hread
    cases hread
  rcases Nat.lt_or_ge (content s).length HEADER_LEN with hshort | hlong
  · rw [readHeaderBytes_short h hnil hshort] at hread
    cases hread
  rw [frame, append_assoc] at hstart
  obtain ⟨part, hcontent⟩ : beBytes HEADER_LEN payload.length <+: content s :=
    prefix_of_prefix_length_le (prefix_append _ _) hstart (by simpa using hlong)
  obtain ⟨s₁, hheader, -⟩ := readHeaderBytes_append h (by simp) hcontent.symm
  rw [hheader] at hread
  cases hread
  exact hfits.header_ne_preamble hmax

include h hmax in
/-- A legacy connection, up to its close or to the middle of a frame. -/
theorem yields_legacy
    (htail : ∀ s, content s = tail → ∃ e, P e ∧ Yields r maxFrameSize ⟨some false⟩ s [] e)
    (hfits : ∀ p ∈ payloads, Fits maxFrameSize p)
    (hpart : tail = [] ∨ ∃ p, Fits maxFrameSize p ∧ tail <+: frame p)
    (hcontent : content s = (payloads.map frame).flatten ++ tail) :
    ∃ e, P e ∧ Yields r maxFrameSize .new s (payloads.map (legacySignerHint, ·)) e := by
  obtain ⟨e, he, hyields⟩ := yields_frames h hmax htail hfits hcontent
  refine ⟨e, he, hyields.of_readNext_eq ?_⟩
  cases payloads with
  | cons p payloads =>
    have hstart : content s <+: frame p ++ ((payloads.map frame).flatten ++ tail) := by
      rw [hcontent, map_cons, flatten_cons, append_assoc]
    exact readNext_of_start h hmax (hfits p mem_cons_self) hstart
  | nil =>
    rw [map_nil, flatten_nil, nil_append] at hcontent
    rcases hpart with rfl | ⟨p, hp, hprefix⟩
    · refine readNext_legacy ?_
      intro head s' hread
      rw [readHeaderBytes_eof h hcontent] at hread
      cases hread
    · have hstart : content s <+: frame p ++ [] := by rwa [hcontent, append_nil]
      exact readNext_of_start h hmax hp hstart

include h hmax in
theorem yields_hinted
    (htail : ∀ s, content s = tail → ∃ e, P e ∧ Yields r maxFrameSize ⟨some true⟩ s [] e)
    (hfits : ∀ q ∈ requests, Fits maxFrameSize q.2)
    (hcontent : content s = KNH2_PREAMBLE ++ ((requests.map hintedFrame).flatten ++ tail)) :
    ∃ e, P e ∧ Yields r maxFrameSize .new s requests e := by
  obtain ⟨s', heq, hrest⟩ := readNext_hinted h hcontent
  obtain ⟨e, he, hyields⟩ := yields_hintedFrames h hmax htail hfits hrest
  exact ⟨e, he, hyields.of_readNext_eq heq⟩

end Connections

section Streams

variable {payloads : List (List UInt8)} {requests : List (SignerHint × List UInt8)}

section

variable (hmax : maxFrameSize ≤ HARD_MAX_FRAME_SIZE)
include hmax

theorem encodeFrame_eq {payload : List UInt8}
    (hfits : Fits maxFrameSize payload) : encodeFrame payload = .ok (frame payload) := by
  have hle := hfits.2.trans hmax
  exact if_pos (by simp only [HARD_MAX_FRAME_SIZE] at hle; omega)

theorem encodeHintedFrame_eq {request : SignerHint × List UInt8}
    (hfits : Fits maxFrameSize request.2) :
    encodeHintedFrame request.1 request.2 = .ok (hintedFrame request) := by
  have hle := hfits.2.trans hmax
  rw [encodeHintedFrame, if_pos (by simp only [HARD_MAX_FRAME_SIZE] at hle; omega), append_assoc]
  rfl

theorem encodeFrames_eq (hfits : ∀ p ∈ payloads, Fits maxFrameSize p) :
    encodeFrames payloads = .ok (payloads.map frame).flatten := by
  have hall : List.Forall₂ (fun p q => encodeFrame p = .ok (frame q)) payloads payloads :=
    forall₂_same.mpr fun p hp => encodeFrame_eq hmax (hfits p hp)
  rw [encodeFrames, mapM_of_forall₂ hall]
  rfl

theorem encodeHintedFrames_eq (hfits : ∀ q ∈ requests, Fits maxFrameSize q.2) :
    encodeHintedFrames requests = .ok (requests.map hintedFrame).flatten := by
  have hall : List.Forall₂ (fun q q' => encodeHintedFrame q.1 q.2 = .ok (hintedFrame q'))
      requests requests :=
    forall₂_same.mpr fun q hq => encodeHintedFrame_eq hmax (hfits q hq)
  rw [encodeHintedFrames, mapM_of_forall₂ hall]
  rfl

end

/-- For every reading in pieces: whole streams give their requests and then the close, and streams
that break off inside a frame give the requests before it and a truncation error. -/
theorem framing_round_trips (h : r.Serves content) (hmax : maxFrameSize ≤ HARD_MAX_FRAME_SIZE) :
    (∀ payloads : List (List UInt8), (∀ p ∈ payloads, Fits maxFrameSize p) →
      ∃ stream, encodeFrames payloads = .ok stream ∧
        (∀ s, content s = stream → Yields r maxFrameSize .new s
          (payloads.map (legacySignerHint, ·)) .eofBeforeHeader) ∧
        ∀ p last part, Fits maxFrameSize p → encodeFrame p = .ok last →
          part <+: last → part ≠ [] → part ≠ last → ∀ s, content s = stream ++ part →
            ∃ e, FrameError.IsTruncation e = true ∧
              Yields r maxFrameSize .new s (payloads.map (legacySignerHint, ·)) e) ∧
    (∀ requests : List (SignerHint × List UInt8), (∀ q ∈ requests, Fits maxFrameSize q.2) →
      ∃ stream, encodeHintedFrames requests = .ok stream ∧
        (∀ s, content s = KNH2_PREAMBLE ++ stream →
          Yields r maxFrameSize .new s requests .eofBeforeHeader) ∧
        ∀ hint p last part, Fits maxFrameSize p → encodeHintedFrame hint p = .ok last →
          part <+: last → part ≠ [] → part ≠ last →
          ∀ s, content s = KNH2_PREAMBLE ++ (stream ++ part) →
            ∃ e, FrameError.IsTruncation e = true ∧ Yields r maxFrameSize .new s requests e) := by
  refine ⟨?_, ?_⟩
  · intro payloads hfits
    refine ⟨_, encodeFrames_eq hmax hfits, ?_, ?_⟩
    · intro s hcontent
      have hclose : ∀ s, content s = [] → ∃ e, e = FrameError.eofBeforeHeader ∧
          Yields r maxFrameSize ⟨some false⟩ s [] e :=
        fun s hs => ⟨_, rfl, yields_eof h false hs⟩
      obtain ⟨e, rfl, hyields⟩ := yields_legacy h hmax hclose hfits (.inl rfl) (by rwa [append_nil])
      exact hyields
    · intro p last part hp hlast hpart hne hproper s hcontent
      cases (encodeFrame_eq hmax hp).symm.trans hlast
      refine yields_legacy h hmax ?_ hfits (.inr ⟨p, hp, hpart⟩) hcontent
      intro s hs
      subst hs
      obtain ⟨e, he, hread⟩ := readFrame_truncated h hmax hp hpart hne hproper
      exact ⟨e, he, .stop (by simp only [readNext, hread]; rfl)⟩
  · intro requests hfits
    refine ⟨_, encodeHintedFrames_eq hmax hfits, ?_, ?_⟩
    · intro s hcontent
      have hclose : ∀ s, content s = [] → ∃ e, e = FrameError.eofBeforeHeader ∧
          Yields r maxFrameSize ⟨some true⟩ s [] e :=
        fun s hs => ⟨_, rfl, yields_eof h true hs⟩
      obtain ⟨e, rfl, hyields⟩ := yields_hinted h hmax hclose hfits (by rwa [append_nil])
      exact hyields
    · intro hint p last part hp hlast hpart hne hproper s hcontent
      have henc : encodeHintedFrame (hint, p).1 (hint, p).2 = .ok (hintedFrame (hint, p)) :=
        encodeHintedFrame_eq hmax hp
      cases henc.symm.trans hlast
      refine yields_hinted h hmax ?_ hfits hcontent
      intro s hs
      subst hs
      obtain ⟨e, he, hread⟩ := readHintedFrame_truncated h hmax hp hpart hne hproper
      exact ⟨e, he, .stop (by simp only [readNext, hread]; rfl)⟩

/-- A device that hands out one byte at a time. -/
def byteByByte : Reader (List UInt8) Empty UInt8 where
  read := fun bytes n => .ok (if n = 0 then ([], bytes) else (bytes.take 1, bytes.drop 1))

theorem byteByByte_serves : byteByByte.Serves id where
  read := by
    intro bytes n
    by_cases hzero : n = 0
    · exact ⟨[], bytes, by simp [byteByByte, hzero], by simp, rfl, fun _ => .inl hzero⟩
    refine ⟨bytes.take 1, bytes.drop 1, by simp [byteByByte, hzero], by simp; omega,
      (take_append_drop 1 bytes).symm, ?_⟩
    intro hnil
    exact .inr (by simpa using hnil)

theorem framing_round_trips_byte_by_byte :
    (1024 ≤ HARD_MAX_FRAME_SIZE) ∧
    ∃ stream, encodeFrames [[7, 8], [9]] = .ok stream ∧
      Yields byteByByte 1024 .new stream [(legacySignerHint, [7, 8]), (legacySignerHint, [9])]
        .eofBeforeHeader := by
  have hfits : ∀ p ∈ [[7, 8], [9]], Fits 1024 p := by simp [Fits]
  obtain ⟨stream, hstream, hwhole, -⟩ :=
    (framing_round_trips byteByByte_serves (by decide)).1 [[7, 8], [9]] hfits
  exact ⟨by decide, stream, hstream, hwhole stream rfl⟩

end Streams

end Knomosis.Host
