import BobbyOS.Machine.Memory

/-!
# The host's files as the machine sees them

`Hardware::FileSystem` keeps a growing vector of optional `OpenFile` objects.
An `OpenFile` owns a host descriptor: its constructor opens it and its
destructor closes it and asserts that the close succeeded.  The class has no
copy or move constructor of its own, so when the vector reallocates every live
element is copied (the descriptor number, not the file) and the old copy is
destroyed, which closes the descriptor.

The host keeps its own table of open descriptions; what it answers to one
request that is not determined by that table is in `HostInput`.
-/

namespace Hardware

/-- One open file description of the host. -/
structure HostFile where
  content : List Byte
  offset : Nat := 0
  deriving DecidableEq, Repr

/-- The descriptor table of the host process: descriptor `d` is open when
`fds[d]? = some (some _)`. -/
structure Host where
  fds : List (Option HostFile) := []
  deriving DecidableEq, Repr

/-- What the host contributes to one machine cycle: the interrupt line and its
answers to the one request the instruction may make. -/
structure HostInput where
  /-- `interDev && interDev->poll()` -/
  poll : Bool := false
  /-- `::open(path, flags)`: the content of the file, or failure. -/
  fileAt : List Byte → Word → Option (List Byte) := fun _ _ => none
  /-- `::read`: failure, or the most bytes it is willing to return. -/
  readLimit : Option Nat := none
  /-- `::lseek` on an open descriptor fails. -/
  seekFails : Bool := false
  /-- Where `::lseek` moves to for a `whence` other than `SEEK_SET`, `SEEK_CUR` and
  `SEEK_END`, such as `SEEK_DATA` and `SEEK_HOLE`; failure when the host knows no such one. -/
  seekTo : Option Nat := none
  errno : Word := 0
  /-- `std::cin >> res`. -/
  cin : Word := 0
  /-- The characters that `std::cin >> res` takes out of the stream: blanks and a number, or
  nothing at the end of the input. -/
  cinTaken : List Byte := []
  /-- `stdio->read(buf, n)`: failure (`-1`), or the bytes delivered. -/
  stdin : Option (List Byte) := none

/-- The lowest descriptor that is not open. -/
def Host.lowestFree (h : Host) : Nat :=
  (h.fds.findIdx? (· = none)).getD h.fds.length

/-- `::open` on a file with this content. -/
def Host.allocate (h : Host) (content : List Byte) : Nat × Host :=
  let fd := h.lowestFree
  (fd, if fd < h.fds.length then { fds := h.fds.set fd (some { content }) }
       else { fds := h.fds ++ [some { content }] })

/-- The open description behind a descriptor. -/
def Host.file (h : Host) (fd : Word) : Option HostFile :=
  (h.fds[fd.toNat]?).join

/-- `OpenFile`: a host descriptor and the last error. -/
structure OpenFile where
  fd : Word
  err : Word := 0
  deriving DecidableEq, Repr

/-- `OpenFile(filePath, flags)`; a failed open fails the assertion. -/
def OpenFile.construct (filePath : List Byte) (flags : Word) (inp : HostInput) (h : Host) :
    Except Fault (OpenFile × Host) :=
  match inp.fileAt filePath flags with
  | none => .error (.assertFailed "false")
  | some content =>
      let (fd, h) := h.allocate content
      .ok ({ fd := BitVec.ofNat 32 fd }, h)

/-- `~OpenFile`: close the descriptor and assert that this succeeded. -/
def OpenFile.destroy (f : OpenFile) (h : Host) : Except Fault Host :=
  match h.file f.fd with
  | none => .error (.assertFailed "(close(fd) == 0) && Recieved an error on fileclose")
  | some _ => .ok { fds := h.fds.set f.fd.toNat none }

/-- `OpenFile::read`.  The result of `::read` is a 64-bit number, so a failure
(all ones) never equals `Word(-1)`: it reaches `resize` instead of the error
branch. -/
def OpenFile.read (f : OpenFile) (count : Word) (inp : HostInput) (h : Host) :
    Except Fault (List Byte × OpenFile × Host) :=
  match inp.readLimit, h.file f.fd with
  | some limit, some file =>
      let bytes := (file.content.drop file.offset).take (min count.toNat limit)
      let h' : Host :=
        { fds := h.fds.set f.fd.toNat
            (some { file with offset := file.offset + bytes.length }) }
      if bytes.length = 0xFFFFFFFF then .ok ([], { f with err := inp.errno }, h')
      else .ok (bytes, f, h')
  | _, _ => .error (.hostException "std::length_error")

/-- Where `::lseek` moves to, if it succeeds. -/
def HostFile.seekTarget (file : HostFile) (offset : Word) (whence : Word) (inp : HostInput) :
    Option Nat :=
  if inp.seekFails then none
  else if whence = 0 then some offset.toNat
  else if whence = 1 then some (file.offset + offset.toNat)
  else if whence = 2 then some (file.content.length + offset.toNat)
  else inp.seekTo

/-- `OpenFile::seek`: the new offset, cut to 32 bits, with all ones standing
for an error. -/
def OpenFile.seek (f : OpenFile) (offset : Word) (whence : Word) (inp : HostInput) (h : Host) :
    Word × OpenFile × Host :=
  match h.file f.fd with
  | none => (0xFFFFFFFF#32, { f with err := inp.errno }, h)
  | some file =>
      match file.seekTarget offset whence inp with
      | none => (0xFFFFFFFF#32, { f with err := inp.errno }, h)
      | some target =>
          let res := BitVec.ofNat 32 target
          let h' : Host := { fds := h.fds.set f.fd.toNat (some { file with offset := target }) }
          if res = 0xFFFFFFFF#32 then (res, { f with err := inp.errno }, h') else (res, f, h')

/-- `FileSystem`: the vector of files with its capacity, and the stack of free
virtual descriptors (the back of the vector is the end of the list). -/
structure FileSystem where
  files : List (Option OpenFile) := []
  capacity : Nat := 0
  freeVFDs : List Word := []
  deriving DecidableEq, Repr

/-- Reallocation of the vector: every live element is copied and its old copy
destroyed, in order. -/
def relocate : List (Option OpenFile) → Host → Except Fault Host
  | [], h => .ok h
  | none :: rest, h => relocate rest h
  | some f :: rest, h => do
      let h ← f.destroy h
      relocate rest h

/-- `FileSystem::open`: a virtual descriptor for a newly opened file. -/
def FileSystem.openPath (fs : FileSystem) (filePath : List Byte) (flags : Word)
    (inp : HostInput) (h : Host) : Except Fault (Word × FileSystem × Host) :=
  match fs.freeVFDs.getLast? with
  | none => do
      let (file, h) ← OpenFile.construct filePath flags inp h
      let vfd := BitVec.ofNat 32 fs.files.length
      if fs.files.length < fs.capacity then
        .ok (vfd, { fs with files := fs.files ++ [some file] }, h)
      else
        -- the new element is constructed before the old ones are relocated
        let h ← relocate fs.files h
        .ok (vfd, { fs with files := fs.files ++ [some file],
                            capacity := fs.files.length + max fs.files.length 1 }, h)
  | some vfd =>
      match fs.files[vfd.toNat]? with
      | none => .error (.outOfBounds vfd.toNat)
      | some (some _) => .error (.assertFailed "!file && Reusing occupied VFD")
      | some none => do
          let (file, h) ← OpenFile.construct filePath flags inp h
          let fs := { fs with files := fs.files.set vfd.toNat (some file),
                              freeVFDs := fs.freeVFDs.dropLast }
          .ok (if file.err ≠ 0 then file.err else vfd, fs, h)

/-- `FileSystem::close`: `-1` for a descriptor never handed out, `-2` for one
already closed. -/
def FileSystem.close (fs : FileSystem) (vfd : Word) (h : Host) :
    Except Fault (Word × FileSystem × Host) :=
  match fs.files[vfd.toNat]? with
  | none => .ok (0xFFFFFFFF#32, fs, h)
  | some none => .ok (0xFFFFFFFE#32, fs, h)
  | some (some file) => do
      let h ← file.destroy h
      .ok (0, { fs with files := fs.files.set vfd.toNat none,
                        freeVFDs := fs.freeVFDs ++ [vfd] }, h)

/-- `FileSystem::operator[]` followed by `operator->`: `files.at` throws past
the end, and dereferencing an absent file leaves the `optional`. -/
def FileSystem.deref (fs : FileSystem) (vfd : Word) : Except Fault OpenFile :=
  match fs.files[vfd.toNat]? with
  | none => .error (.hostException "std::out_of_range")
  | some none => .error (.hostException "empty std::optional")
  | some (some file) => .ok file

/-- Write an open file back into its slot. -/
def FileSystem.store (fs : FileSystem) (vfd : Word) (file : OpenFile) : FileSystem :=
  { fs with files := fs.files.set vfd.toNat (some file) }

end Hardware
