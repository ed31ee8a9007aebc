import Mathlib.Data.List.TakeWhile
import SystemProgrammingLab.Week11.Transfer

/-!
# The round trip of the files

The server has no other mark between a file and the next name than a NUL at the end of a read. When
every read of a name returns the name, no read of data goes beyond the end of the file, and none
inside of the file ends in a NUL, the copies are the files (`roundTrip_of_clean`).

The invariant is about the stream: what was read, what is in flight and what the client has still to
send are together the files as they are encoded, one after the other (`Transferred`).

Source: `week11/client.c`, `week11/server.c`
-/

namespace SystemProgrammingLab.Week11

open SystemProgrammingLab.Found

/-! ## Files and their copies -/

/-- What the server should have of a file. -/
def File.copy (f : File) : Bytes × Bytes := (f.name ++ copySuffix, f.content)

/-- A file in the stream: its name, its content, and the NUL that ends it. -/
def File.encode (f : File) : Bytes := f.name ++ (f.content ++ [0])

/-- What the client has still to send. -/
def Client.pending : Client → Bytes
  | .prompt rest => rest.flatMap File.encode
  | .readAck f rest => f.content ++ 0 :: rest.flatMap File.encode
  | .sendData f rest => f.content ++ 0 :: rest.flatMap File.encode
  | .sendEnd _ rest => 0 :: rest.flatMap File.encode
  | .closed => []

/-- The closed copies are the files, the open one has a part of its file, and the next name is read
from the first byte behind the end of a file. -/
structure RoundTrip (files : List File) (s : System) : Prop where
  copies : s.copies = (files.take s.copies.length).map File.copy
  opened : ∀ copy written dataLen, s.server = .data copy written dataLen →
    ∃ f, files[s.copies.length]? = some f ∧ copy = f.copy.1 ∧ written <+: f.content
  name : s.server = .filename → s.taken = (files.take s.copies.length).flatMap File.encode
  all : s.server = .closed → s.copies = files.map File.copy
  defined : s.server ≠ .undefined

/-- What a read of `n` bytes has to meet when file `j` is received: it returns the whole name and
nothing else; or it does not go beyond the NUL behind the content, and ends in no other NUL. -/
def Server.Clean (files : List File) (j n : Nat) : Server → Prop
  | .filename => ∀ f ∈ files[j]?, n = f.name.length
  | .data _ _ dataLen => ∀ f ∈ files[j]?, dataLen + n ≤ f.content.length + 1 ∧
      (dataLen + n ≤ f.content.length → f.content[dataLen + n - 1]? ≠ some 0)
  | .closed => True
  | .undefined => True

instance (files : List File) (j n : Nat) : (server : Server) → Decidable (server.Clean files j n)
  | .filename => inferInstanceAs (Decidable (∀ f ∈ files[j]?, n = f.name.length))
  | .data _ _ dataLen => inferInstanceAs (Decidable (∀ f ∈ files[j]?,
      dataLen + n ≤ f.content.length + 1 ∧
        (dataLen + n ≤ f.content.length → f.content[dataLen + n - 1]? ≠ some 0)))
  | .closed => .isTrue trivial
  | .undefined => .isTrue trivial

/-- The reads of the server are clean; the other steps are free. -/
def Clean (files : List File) (s : System) (a : Action) : Prop :=
  ∀ n ∈ a.read?, s.server.Clean files s.copies.length n

instance (files : List File) (s : System) (a : Action) : Decidable (Clean files s a) :=
  inferInstanceAs (Decidable (∀ n ∈ a.read?, s.server.Clean files s.copies.length n))

/-- The name of a file, as it is copied into the message. -/
theorem filenameCopy_name (f : File) : filenameCopy f.name = f.copy.1 := by
  have htake : f.name.takeWhile (· ≠ 0) = f.name := by
    rw [List.takeWhile_eq_self_iff]
    intro b hb
    rw [decide_eq_true_eq]
    rintro rfl
    exact f.nul_notMem hb
  rw [filenameCopy, htake]
  rfl

/-- The stream of the files: those in front of a file, the file, and those behind it. -/
theorem encode_take_drop {files : List File} {j : Nat} {f : File} (h : files[j]? = some f) :
    files.flatMap File.encode = (files.take j).flatMap File.encode ++
      (f.encode ++ (files.drop (j + 1)).flatMap File.encode) := by
  obtain ⟨hj, rfl⟩ := List.getElem?_eq_some_iff.mp h
  rw [← List.flatMap_cons, ← List.drop_eq_getElem_cons, ← List.flatMap_append, List.take_append_drop]

/-- The stream of one more file. -/
theorem encode_take_succ {files : List File} {j : Nat} {f : File} (h : files[j]? = some f) :
    (files.take (j + 1)).flatMap File.encode =
      (files.take j).flatMap File.encode ++ f.encode := by
  rw [List.take_add_one, h, List.flatMap_append]
  simp

/-! ## The invariant -/

/-- Where the server is in the stream. -/
def Server.At (files : List File) (j : Nat) (taken : Bytes) : Server → Prop
  | .filename => taken = (files.take j).flatMap File.encode
  | .data copy written dataLen => ∃ f, files[j]? = some f ∧ copy = f.copy.1 ∧
      dataLen ≤ f.content.length ∧ written = f.content.take dataLen ∧
      taken = (files.take j).flatMap File.encode ++ (f.name ++ f.content.take dataLen)
  | .closed => files.length ≤ j
  | .undefined => False

/-- What holds in every state. -/
structure Transferred (files : List File) (s : System) : Prop where
  stream : s.taken ++ (s.toServer ++ s.client.pending) = files.flatMap File.encode
  copies : s.copies = (files.take s.copies.length).map File.copy
  server : s.server.At files s.copies.length s.taken

section invariant

variable {files : List File} {s s' : System}

/-- The invariant holds at the start. -/
theorem Transferred.init (files : List File) : Transferred files (.init files) :=
  ⟨rfl, rfl, rfl⟩

/-- A step of the client moves bytes from what is to be sent into the stream. -/
theorem Transferred.of_client (h : Transferred files s) (htaken : s'.taken = s.taken)
    (hcopies : s'.copies = s.copies) (hserver : s'.server = s.server)
    (hsent : s'.toServer ++ s'.client.pending = s.toServer ++ s.client.pending) :
    Transferred files s' := by
  refine ⟨?_, ?_, ?_⟩
  · rw [htaken, hsent, h.stream]
  · rw [hcopies]
    exact h.copies
  · rw [htaken, hcopies, hserver]
    exact h.server

/-- The steps of the client. -/
theorem Transferred.client (h : Transferred files s) {a : Action} (hstep : step s a = some s')
    (ha : ∀ n, a ≠ .read n) (heof : a ≠ .readEof) : Transferred files s' := by
  cases a with
  | sendName =>
      rcases hclient : s.client with (_ | ⟨f, rest⟩) | _ | _ | _ | _
      all_goals simp only [step, hclient] at hstep
      all_goals cases hstep
      refine h.of_client rfl rfl rfl ?_
      simp [hclient, Client.pending, File.encode]
  | readAck n =>
      rcases hclient : s.client with _ | ⟨f, rest⟩ | _ | _ | _
      all_goals simp only [step, hclient] at hstep
      all_goals try cases hstep
      split_ifs at hstep
      cases hstep
      refine h.of_client rfl rfl rfl ?_
      simp [hclient, Client.pending]
  | sendData =>
      rcases hclient : s.client with _ | _ | ⟨f, rest⟩ | _ | _
      all_goals simp only [step, hclient] at hstep
      all_goals cases hstep
      refine h.of_client rfl rfl rfl ?_
      simp [hclient, Client.pending, List.take_of_length_le f.content_le]
  | sendEnd =>
      rcases hclient : s.client with _ | _ | _ | ⟨f, rest⟩ | _
      all_goals simp only [step, hclient] at hstep
      all_goals cases hstep
      refine h.of_client rfl rfl rfl ?_
      simp [hclient, Client.pending]
  | quit =>
      rcases hclient : s.client with (_ | ⟨f, rest⟩) | _ | _ | _ | _
      all_goals simp only [step, hclient] at hstep
      all_goals cases hstep
      refine h.of_client rfl rfl rfl ?_
      simp [hclient, Client.pending]
  | read n => exact absurd rfl (ha n)
  | readEof => exact absurd rfl heof

/-! ## The reads of the server -/

/-- What the server reads was sent. -/
theorem Transferred.take (h : Transferred files s) (n : Nat) :
    (s.take n).taken ++ ((s.take n).toServer ++ (s.take n).client.pending) =
      files.flatMap File.encode := by
  show (s.taken ++ s.toServer.take n) ++ (s.toServer.drop n ++ s.client.pending) = _
  rw [List.append_assoc, ← List.append_assoc (s.toServer.take n), List.take_append_drop, h.stream]

/-- The bytes of a read are the next ones of the stream. -/
theorem Transferred.take_toServer (h : Transferred files s) {before rest : Bytes}
    (htaken : s.taken = before) (hrest : files.flatMap File.encode = before ++ rest) {n : Nat}
    (hn : n ≤ s.toServer.length) : s.toServer.take n = rest.take n := by
  have hstream := h.stream
  rw [htaken, hrest, List.append_cancel_left_eq] at hstream
  rw [← hstream, List.take_append_of_le_length hn]

/-- A name is read behind the end of a file. -/
theorem Transferred.readName (h : Transferred files s) (hserver : s.server = .filename) {n : Nat}
    (hpos : 0 < n) (hn : n ≤ s.toServer.length)
    (hclean : ∀ f ∈ files[s.copies.length]?, n = f.name.length) :
    Transferred files ((s.take n).readName (s.toServer.take n)) := by
  have hat := h.server
  rw [hserver] at hat
  rcases hf : files[s.copies.length]? with _ | f
  · -- nothing is left in the stream
    have hall : files.flatMap File.encode = s.taken ++ [] := by
      rw [show s.taken = _ from hat, List.take_of_length_le (List.getElem?_eq_none_iff.mp hf),
        List.append_nil]
    have hnil := h.take_toServer rfl hall hn
    rw [List.take_nil] at hnil
    have hlen := congrArg List.length hnil
    rw [List.length_take, List.length_nil] at hlen
    omega
  · have hbytes := h.take_toServer hat (encode_take_drop hf) hn
    rw [hclean f hf, File.encode, List.append_assoc, List.take_left] at hbytes
    have hread : (s.take n).readName (s.toServer.take n) = { s.take n with
        server := .data f.copy.1 [] 0, toClient := s.toClient ++ ack } := by
      rw [hclean f hf, hbytes]
      unfold System.readName
      rw [if_pos f.name_lt, filenameCopy_name]
      rfl
    rw [hread]
    refine ⟨h.take n, h.copies, f, hf, rfl, Nat.zero_le _, rfl, ?_⟩
    show s.taken ++ s.toServer.take n = _
    rw [hclean f hf, hbytes, show s.taken = _ from hat, List.take_zero, List.append_nil]
    rfl

/-- The stream at a place inside of a file. -/
theorem encode_split {j : Nat} {f : File} (h : files[j]? = some f) (dataLen : Nat) :
    files.flatMap File.encode =
      ((files.take j).flatMap File.encode ++ (f.name ++ f.content.take dataLen)) ++
        (f.content.drop dataLen ++ 0 :: (files.drop (j + 1)).flatMap File.encode) := by
  have hcontent : f.encode =
      (f.name ++ f.content.take dataLen) ++ (f.content.drop dataLen ++ [0]) := by
    rw [List.append_assoc, ← List.append_assoc (f.content.take dataLen), List.take_append_drop]
    rfl
  rw [encode_take_drop h, hcontent]
  simp only [List.append_assoc, List.singleton_append]

/-- A read inside of a file. -/
theorem Transferred.readContent (h : Transferred files s) {f : File} {copy written : Bytes}
    {dataLen n : Nat} (hserver : s.server = .data copy written dataLen)
    (hf : files[s.copies.length]? = some f) (hpos : 0 < n) (hn : n ≤ s.toServer.length)
    (hle : dataLen + n ≤ f.content.length) (hnul : f.content[dataLen + n - 1]? ≠ some 0) :
    Transferred files ((s.take n).readData copy written dataLen (s.toServer.take n)) := by
  have hat := h.server
  rw [hserver] at hat
  obtain ⟨f', hf', rfl, -, rfl, htaken⟩ := hat
  obtain rfl := Option.some.inj (hf.symm.trans hf')
  have hbytes := h.take_toServer htaken (encode_split hf dataLen) hn
  rw [List.take_append_of_le_length (by rw [List.length_drop]; omega)] at hbytes
  have hlen : (s.toServer.take n).length = n := by
    rw [List.length_take, Nat.min_eq_left hn]
  have hlast : (s.toServer.take n).getLast? ≠ some 0 := by
    rw [hbytes, List.getLast?_eq_getElem?, ← hbytes, hlen, hbytes, List.getElem?_take_of_lt (by omega),
      List.getElem?_drop, show dataLen + (n - 1) = dataLen + n - 1 by omega]
    exact hnul
  have hwritten : f.content.take dataLen ++ s.toServer.take n = f.content.take (dataLen + n) := by
    rw [hbytes, ← List.take_add]
  unfold System.readData
  rw [if_neg hlast, hlen]
  refine ⟨h.take n, h.copies, f, hf, rfl, hle, hwritten, ?_⟩
  show s.taken ++ s.toServer.take n = _
  rw [htaken, List.append_assoc, List.append_assoc, hwritten]
  rfl

/-- The read that ends a file. -/
theorem Transferred.readNul (h : Transferred files s) {f : File} {copy written : Bytes}
    {dataLen n : Nat} (hserver : s.server = .data copy written dataLen)
    (hf : files[s.copies.length]? = some f) (hn : n ≤ s.toServer.length)
    (hend : dataLen + n = f.content.length + 1) :
    Transferred files ((s.take n).readData copy written dataLen (s.toServer.take n)) := by
  have hat := h.server
  rw [hserver] at hat
  obtain ⟨f', hf', rfl, hle, rfl, htaken⟩ := hat
  obtain rfl := Option.some.inj (hf.symm.trans hf')
  have hbytes := h.take_toServer htaken (encode_split hf dataLen) hn
  have hn' : n = (f.content.drop dataLen).length + 1 := by
    rw [List.length_drop]
    omega
  rw [hn', List.take_length_add_append, List.take_succ_cons, List.take_zero, ← hn'] at hbytes
  have hlen : (s.toServer.take n).length = n := by
    rw [List.length_take, Nat.min_eq_left hn]
  have hread : (s.take n).readData f.copy.1 (f.content.take dataLen) dataLen (s.toServer.take n) =
      { s.take n with server := .filename, copies := s.copies ++ [f.copy] } := by
    have hlast : (s.toServer.take n).getLast? = some 0 := by
      rw [hbytes, List.getLast?_concat]
    unfold System.readData System.closeCopy
    rw [if_pos hlast, hlen, if_neg (by omega), hbytes, List.dropLast_concat, List.take_append_drop]
    rfl
  have hsucc : (s.copies ++ [f.copy]).length = s.copies.length + 1 := List.length_append
  rw [hread]
  refine ⟨h.take n, ?_, ?_⟩
  · show s.copies ++ [f.copy] = _
    rw [hsucc, List.take_add_one, hf, List.map_append, ← h.copies]
    rfl
  · show s.taken ++ s.toServer.take n = _
    rw [hsucc, encode_take_succ hf, htaken, hbytes, List.append_assoc, List.append_assoc,
      ← List.append_assoc (f.content.take dataLen), List.take_append_drop]
    rfl

/-- When the client is gone and the stream is read, nothing is left of the files. -/
theorem Transferred.drained (h : Transferred files s) (hclient : s.client = .closed)
    (hnil : s.toServer = []) {before rest : Bytes} (htaken : s.taken = before)
    (hrest : files.flatMap File.encode = before ++ rest) : rest = [] := by
  have hstream := h.stream
  rw [hclient, hnil, htaken, hrest, List.append_cancel_left_eq] at hstream
  exact hstream.symm

/-- The end of the stream is behind the last file. -/
theorem Transferred.readEof (h : Transferred files s) (hclient : s.client = .closed)
    (hnil : s.toServer = []) (hstep : s.readEof = some s') : Transferred files s' := by
  have hat := h.server
  unfold System.readEof at hstep
  rcases hserver : s.server with _ | ⟨copy, written, dataLen⟩ | _ | _
  · rw [hserver] at hstep hat
    cases hstep
    refine ⟨h.stream, h.copies, List.getElem?_eq_none_iff.mp ?_⟩
    rcases hf : files[s.copies.length]? with _ | f
    · rfl
    · have hempty := h.drained hclient hnil hat (encode_take_drop hf)
      have hlen := congrArg List.length hempty
      simp [File.encode] at hlen
  · rw [hserver] at hat
    obtain ⟨f, hf, -, -, -, htaken⟩ := hat
    have hempty := h.drained hclient hnil htaken (encode_split hf dataLen)
    exact absurd hempty (by simp)
  · rw [hserver] at hstep
    cases hstep
  · rw [hserver] at hstep
    cases hstep

/-- What a clean step preserves. -/
theorem Transferred.next (h : Transferred files s) {a : Action} (hstep : Step s a s')
    (hclean : Clean files s a) : Transferred files s' := by
  cases a with
  | read n =>
      simp only [Step, step] at hstep
      split_ifs at hstep with hn
      obtain ⟨hpos, hn⟩ := hn
      have hat := h.server
      rcases hserver : s.server with _ | ⟨copy, written, dataLen⟩ | _ | _
      all_goals simp only [System.read, hserver, reduceCtorEq] at hstep
      · have hread : Server.filename.Clean files s.copies.length n := hserver ▸ hclean n rfl
        split_ifs at hstep
        cases hstep
        exact h.readName hserver hpos hn hread
      · rw [hserver] at hat
        have hread : (Server.data copy written dataLen).Clean files s.copies.length n :=
          hserver ▸ hclean n rfl
        obtain ⟨f, hf, -⟩ := hat
        obtain ⟨hle, hnul⟩ := hread f hf
        split_ifs at hstep
        cases hstep
        by_cases hin : dataLen + n ≤ f.content.length
        · exact h.readContent hserver hf hpos hn hin (hnul hin)
        · exact h.readNul hserver hf hn (by omega)
  | readEof =>
      simp only [Step, step] at hstep
      split at hstep
      · rename_i hclient hnil
        exact h.readEof hclient hnil hstep
      · cases hstep
  | sendName => exact h.client hstep (fun _ => nofun) nofun
  | readAck n => exact h.client hstep (fun _ => nofun) nofun
  | sendData => exact h.client hstep (fun _ => nofun) nofun
  | sendEnd => exact h.client hstep (fun _ => nofun) nofun
  | quit => exact h.client hstep (fun _ => nofun) nofun

/-- When the server has read everything it has the files. -/
theorem Transferred.roundTrip (h : Transferred files s) : RoundTrip files s := by
  have hat := h.server
  refine ⟨h.copies, ?_, ?_, ?_, ?_⟩
  · intro copy written dataLen hserver
    rw [hserver] at hat
    obtain ⟨f, hf, hcopy, -, rfl, -⟩ := hat
    exact ⟨f, hf, hcopy, List.take_prefix _ _⟩
  · intro hserver
    rw [hserver] at hat
    exact hat
  · intro hserver
    rw [hserver] at hat
    rw [h.copies, List.take_of_length_le hat]
  · intro hserver
    rw [hserver] at hat
    exact hat

end invariant

/-- **The round trip of the files**: in every run whose reads are clean the copies are the files. -/
theorem roundTrip_of_clean {files : List File} {as : List Action} {s : System}
    (h : Run (Guarded Step (Clean files)) (.init files) as s) : RoundTrip files s := by
  have hinv : Transferred files s :=
    h.invariant (Transferred files) (fun _ _ _ hs hstep => hs.next hstep.1 hstep.2)
      (Transferred.init files)
  exact hinv.roundTrip

/-! ## Two runs -/

/-- A step with its action as the event. -/
def act (s : System) (a : Action) : Option (System × Action) := (step s a).map (·, a)

/-- The executable step does steps. -/
theorem act_sound (s : System) (a : Action) (s' : System) (e : Action)
    (h : act s a = some (s', e)) : Step s e s' := by
  obtain ⟨t, ht, heq⟩ := Option.map_eq_some_iff.mp h
  cases heq
  exact ht

/-- The file `"a"` with the content `"b"`. -/
def letterFile : File where
  name := [97]
  content := [98]
  name_ne_nil := List.cons_ne_nil _ _
  name_lt := by decide
  nul_notMem := by decide
  content_le := by decide

/-- The run of one file of one letter. -/
def letterRun : List Action :=
  [.sendName, .read 1, .readAck 3, .sendData, .sendEnd, .read 2, .quit, .readEof]

/-- Its transfer, until both sides have closed the connection. -/
theorem roundTrip_letter : ∃ s, Run (Guarded Step (Clean [letterFile])) (.init [letterFile]) letterRun s ∧
    RoundTrip [letterFile] s := by
  obtain ⟨s, h⟩ : ∃ s, Run (Guarded Step (Clean [letterFile])) (.init [letterFile]) letterRun s :=
    exists_run_of_exec (guarded_sound act_sound) letterRun rfl
  exact ⟨s, h, roundTrip_of_clean h⟩

/-- The file `"a"` with a NUL in front of the content `"b"`. -/
def nulFile : File where
  name := [97]
  content := [0, 98]
  name_ne_nil := List.cons_ne_nil _ _
  name_lt := by decide
  nul_notMem := by decide
  content_le := by decide

/-- The first read of data returns the NUL alone, which ends the copy. -/
theorem not_roundTrip : ¬ ∀ (files : List File) (as : List Action) (s : System),
    Run Step (.init files) as s → RoundTrip files s := by
  intro h
  obtain ⟨s, hrun, hcopies⟩ : ∃ s, Run Step (.init [nulFile]) _ s ∧
      s.copies = [(nulFile.copy.1, [])] :=
    ⟨_, exec_run act_sound [.sendName, .read 1, .readAck 3, .sendData, .read 1] rfl, rfl⟩
  have hcopy := (h _ _ _ hrun).copies
  rw [hcopies] at hcopy
  exact absurd hcopy (by decide)

end SystemProgrammingLab.Week11
