import HmclPe.Java.Text
import HmclPe.Lib.Blocks
import HmclPe.Skin.Bitmap

/-! The hash of a texture. The pixels go through a buffer of fixed size into the digest. -/
namespace HmclPe.Auth.Texture
open HmclPe.Java HmclPe.Lib.Blocks HmclPe.Skin

abbrev Byte := BitVec 8

/-- `MessageDigest`, with `update` as what its receiver takes in. -/
structure MessageDigest extends Receiver Byte where
  digest : State → List Byte

section Model

def bufferLength : Nat := 4096

/-- An assignment to an element of an array, or the exception of an index outside of it. -/
def store (array : List Byte) (index : Nat) (value : Byte) : Option (List Byte) :=
  if index < array.length then some (array.set index value) else none

def byte (x : BitVec 32) (shift : Nat) : Byte := (x.sshiftRight shift &&& 0xff#32).setWidth 8

def putInt (array : List Byte) (offset : Nat) (x : BitVec 32) : Option (List Byte) := do
  let array ← store array offset (byte x 24)
  let array ← store array (offset + 1) (byte x 16)
  let array ← store array (offset + 2) (byte x 8)
  store array (offset + 3) (byte x 0)

/-- The last of the three bytes is assigned first. -/
def clearColour (buf : List Byte) (pos : Nat) : Option (List Byte) := do
  let buf ← store buf (pos + 3) 0
  let buf ← store buf (pos + 2) 0
  store buf (pos + 1) 0

def clearTransparent (buf : List Byte) (pos : Nat) : Option (List Byte) := do
  let alpha ← buf[pos]?
  if alpha = 0 then clearColour buf pos else return buf

variable (sha256 : MessageDigest) (img : Bitmap)

/-- The body of the inner loop. -/
def hashPixel (buffer : Buffered sha256.toReceiver) (x y : Nat) :
    Option (Buffered sha256.toReceiver) := do
  let pos := buffer.position
  let pixel ← img.getPixel x y
  let buf ← putInt buffer.cells pos pixel
  let buf ← clearTransparent buf pos
  if pos + 4 = buf.length then return ⟨buf,0,sha256.take buffer.received buf⟩
  else return ⟨buf,pos + 4,buffer.received⟩

/-- The bytes of a number behind a sign of one, printed in base sixteen. -/
def bigInteger (bytes : List Byte) : Nat := bytes.foldl (fun n byte => 256 * n + byte.toNat) 0

/-- `String.format` with the width and the leading zeros of two digits a byte. -/
def hexFormat (bytes : List Byte) : Text :=
  let digits := Nat.toDigits 16 (bigInteger bytes)
  List.replicate (2 * bytes.length - digits.length) '0' ++ digits

def computeTextureHash : Option Text := do
  let buf ← putInt (List.replicate bufferLength 0) 0 (BitVec.ofNat 32 img.width)
  let buf ← putInt buf 4 (BitVec.ofNat 32 img.height)
  let buffer ← (List.range img.width).foldlM (fun buffer x =>
    (List.range img.height).foldlM (fun buffer y => hashPixel sha256 img buffer x y) buffer)
      (⟨buf,8,sha256.initial⟩ : Buffered sha256.toReceiver)
  let state := if 0 < buffer.position then
      sha256.take buffer.received (buffer.cells.take buffer.position)
    else buffer.received
  return hexFormat (sha256.digest state)

end Model

/-- The highest byte first. -/
def bigEndian (x : BitVec 32) : List Byte :=
  [x.extractLsb' 24 8,x.extractLsb' 16 8,x.extractLsb' 8 8,x.extractLsb' 0 8]

def visible (pixel : Pixel) : Pixel := if pixel.extractLsb' 24 8 = 0 then 0 else pixel

/-- What a texture is known by: its size and its visible colours, column by column. -/
def textureBytes (img : Bitmap) : List Byte :=
  bigEndian (BitVec.ofNat 32 img.width) ++ bigEndian (BitVec.ofNat 32 img.height) ++
    (List.range img.width).flatMap fun x =>
      (List.range img.height).flatMap fun y => bigEndian (visible (img.pixels (x,y)))

section Bytes

theorem byte_eq (x : BitVec 32) (shift : Nat) (inside : shift + 8 ≤ 32) :
    byte x shift = x.extractLsb' shift 8 := by
  ext i bound
  have within : shift + i < 32 := by omega
  have mask : (0xff#32).getLsbD i = true := by interval_cases i <;> rfl
  rw [BitVec.getElem_extractLsb',byte,BitVec.getElem_setWidth,BitVec.getLsbD_and,mask,
    BitVec.getLsbD_sshiftRight]
  simp [within,show i < 32 by omega]

theorem bigEndian_zero : bigEndian 0 = [0,0,0,0] := by decide

theorem length_bigEndian (x : BitVec 32) : (bigEndian x).length = 4 := rfl

variable {buf : List Byte} {pos : Nat}

theorem store_inside {index : Nat} (inside : index < buf.length) (value : Byte) :
    store buf index value = some (buf.set index value) := if_pos inside

theorem putInt_eq (fits : pos + 4 ≤ buf.length) (x : BitVec 32) :
    putInt buf pos x = some (overwrite buf pos (bigEndian x)) := by
  rw [bigEndian,overwrite_cons _ (by omega),overwrite_cons _ (by simp; omega),
    overwrite_cons _ (by simp; omega),overwrite_cons _ (by simp; omega),overwrite_nil]
  rw [putInt,store_inside (by omega),byte_eq x 24 (by omega),byte_eq x 16 (by omega),
    byte_eq x 8 (by omega),byte_eq x 0 (by omega)]
  simp only [Option.bind_eq_bind,Option.bind_some]
  rw [store_inside (by simp; omega)]
  simp only [Option.bind_some]
  rw [store_inside (by simp; omega)]
  simp only [Option.bind_some]
  rw [store_inside (by simp; omega)]

theorem store_overwrite {word : List Byte} {index : Nat} (fits : pos + word.length ≤ buf.length)
    (inside : index < word.length) (value : Byte) :
    store (overwrite buf pos word) (pos + index) value =
      some (overwrite buf pos (word.set index value)) := by
  have length := length_overwrite fits
  rw [store_inside (by omega),set_overwrite value (by omega) inside]

theorem clearColour_eq (fits : pos + 4 ≤ buf.length) (a b c d : Byte) :
    clearColour (overwrite buf pos [a,b,c,d]) pos = some (overwrite buf pos [a,0,0,0]) := by
  rw [clearColour,store_overwrite fits (by simp)]
  simp only [Option.bind_eq_bind,Option.bind_some]
  rw [store_overwrite fits (by simp)]
  simp only [Option.bind_some]
  rw [store_overwrite fits (by simp)]
  rfl

theorem clearTransparent_eq (fits : pos + 4 ≤ buf.length) (pixel : Pixel) :
    clearTransparent (overwrite buf pos (bigEndian pixel)) pos =
      some (overwrite buf pos (bigEndian (visible pixel))) := by
  have some_ : 0 < (bigEndian pixel).length := by simp [length_bigEndian]
  have first : (overwrite buf pos (bigEndian pixel))[pos]? = some (pixel.extractLsb' 24 8) :=
    getElem?_overwrite (by omega) some_
  rw [clearTransparent,first,Option.bind_eq_bind,Option.bind_some,visible]
  split
  · rename_i transparent
    rw [bigEndian,clearColour_eq fits,transparent,bigEndian_zero]
  · rfl

end Bytes

section Hash
variable (sha256 : MessageDigest) (img : Bitmap)

theorem hashPixel_eq {buffer : Buffered sha256.toReceiver} (aligned : Aligned 4 buffer)
    {x y : Nat} (inside : img.Inside x y) :
    hashPixel sha256 img buffer x y =
      some (push buffer (bigEndian (visible (img.pixels (x,y))))) := by
  have fits := aligned.fits
  rw [hashPixel,Bitmap.getPixel_inside inside]
  simp only [Option.bind_eq_bind,Option.bind_some,putInt_eq fits,clearTransparent_eq fits]
  rw [push,length_bigEndian]
  split <;> rfl

/-- The inner loop pushes one column. -/
theorem hashColumn_eq {x : Nat} (within : x < img.width) (rows : List Nat)
    (inside : ∀ y ∈ rows, y < img.height) {buffer : Buffered sha256.toReceiver}
    (aligned : Aligned 4 buffer) :
    rows.foldlM (fun buffer y => hashPixel sha256 img buffer x y) buffer =
      some ((rows.map fun y => bigEndian (visible (img.pixels (x,y)))).foldl push buffer) := by
  induction rows generalizing buffer with
  | nil => rfl
  | cons y rows ih =>
    have here : img.Inside x y := ⟨within,inside y List.mem_cons_self⟩
    rw [List.foldlM_cons,hashPixel_eq sha256 img aligned here,List.map_cons,List.foldl_cons]
    exact ih (fun other member => inside other (List.mem_cons_of_mem y member))
      (aligned.push (length_bigEndian _))

def column (x : Nat) : List (List Byte) :=
  (List.range img.height).map fun y => bigEndian (visible (img.pixels (x,y)))

theorem hashColumns_eq (columns : List Nat) (inside : ∀ x ∈ columns, x < img.width)
    {buffer : Buffered sha256.toReceiver} (aligned : Aligned 4 buffer) :
    columns.foldlM (fun buffer x =>
      (List.range img.height).foldlM (fun buffer y => hashPixel sha256 img buffer x y) buffer)
        buffer = some ((columns.flatMap (column img)).foldl push buffer) := by
  induction columns generalizing buffer with
  | nil => rfl
  | cons x columns ih =>
    have words : ∀ word ∈ column img x, word.length = 4 := by
      intro word member
      obtain ⟨y,-,rfl⟩ := List.mem_map.mp member
      exact length_bigEndian _
    rw [List.foldlM_cons,hashColumn_eq sha256 img (inside x List.mem_cons_self) _
      (fun y => List.mem_range.mp) aligned,List.flatMap_cons,List.foldl_append]
    exact ih (fun other member => inside other (List.mem_cons_of_mem x member))
      (flushed_foldl aligned words).1

/-- The words of the whole image: two for its size, one for each pixel. -/
def words : List (List Byte) :=
  bigEndian (BitVec.ofNat 32 img.width) :: bigEndian (BitVec.ofNat 32 img.height) ::
    (List.range img.width).flatMap (column img)

theorem textureBytes_eq : textureBytes img = (words img).flatten := by
  rw [words,List.flatten_cons,List.flatten_cons,← List.flatMap_id,List.flatMap_assoc,textureBytes,
    List.append_assoc]
  simp only [column,List.flatMap_map,id_eq]

theorem words_length : ∀ word ∈ words img, word.length = 4 := by
  intro word member
  rcases List.mem_cons.mp member with rfl | member
  · exact length_bigEndian _
  rcases List.mem_cons.mp member with rfl | member
  · exact length_bigEndian _
  obtain ⟨x,-,inside⟩ := List.mem_flatMap.mp member
  obtain ⟨y,-,rfl⟩ := List.mem_map.mp inside
  exact length_bigEndian _

def blank : Buffered sha256.toReceiver := ⟨List.replicate bufferLength 0,0,sha256.initial⟩

theorem blank_aligned : Aligned 4 (blank sha256) := by
  have length : (blank sha256).cells.length = 4096 := List.length_replicate
  refine ⟨?_,Nat.dvd_zero 4,?_⟩
  · rw [length]
    decide
  · rw [length]
    exact Nat.zero_lt_succ _

/-- A word that leaves room is written and nothing is sent on. -/
theorem push_early {buffer : Buffered sha256.toReceiver} (x : BitVec 32)
    (early : buffer.position + 4 < buffer.cells.length) :
    push buffer (bigEndian x) =
      ⟨overwrite buffer.cells buffer.position (bigEndian x),buffer.position + 4,
        buffer.received⟩ := by
  have length : (overwrite buffer.cells buffer.position (bigEndian x)).length =
      buffer.cells.length := length_overwrite (Nat.le_of_lt early)
  rw [push,length_bigEndian]
  exact if_neg (by omega)

/-- The buffer with the size of the image in it. -/
def header : Buffered sha256.toReceiver :=
  push (push (blank sha256) (bigEndian (BitVec.ofNat 32 img.width)))
    (bigEndian (BitVec.ofNat 32 img.height))

theorem header_eq : ∃ buf,
    header sha256 img = ⟨buf,8,sha256.initial⟩ ∧
      (putInt (List.replicate bufferLength 0) 0 (BitVec.ofNat 32 img.width)).bind
        (fun buf => putInt buf 4 (BitVec.ofNat 32 img.height)) = some buf := by
  have length : (blank sha256).cells.length = 4096 := List.length_replicate
  have early : (blank sha256).position + 4 < (blank sha256).cells.length := by
    rw [length]
    exact (by decide : 0 + 4 < 4096)
  have first := push_early sha256 (BitVec.ofNat 32 img.width) early
  set one := push (blank sha256) (bigEndian (BitVec.ofNat 32 img.width)) with pushed
  have size : one.cells.length = 4096 := by
    rw [first,length_overwrite (Nat.le_of_lt early),length]
  have position : one.position = 4 := by
    rw [first]
    rfl
  have room : one.position + 4 < one.cells.length := by
    rw [position,size]
    decide
  have second := push_early sha256 (BitVec.ofNat 32 img.height) room
  refine ⟨overwrite one.cells one.position (bigEndian (BitVec.ofNat 32 img.height)),?_,?_⟩
  · rw [header,← pushed,second,position,first]
    rfl
  · have write := putInt_eq (Nat.le_of_lt early) (BitVec.ofNat 32 img.width)
    have cells : one.cells = overwrite (blank sha256).cells (blank sha256).position
        (bigEndian (BitVec.ofNat 32 img.width)) := by rw [first]
    rw [← cells] at write
    have written : putInt (List.replicate bufferLength 0) 0 (BitVec.ofNat 32 img.width) =
        some one.cells := write
    have next := putInt_eq (Nat.le_of_lt room) (BitVec.ofNat 32 img.height)
    rw [written,Option.bind_some,← next,position]

/-- The digest is that of the whole byte string, for every size of the image. -/
theorem computeTextureHash_eq : computeTextureHash sha256 img =
    some (hexFormat (sha256.digest (sha256.take sha256.initial (textureBytes img)))) := by
  obtain ⟨buf,filled,written⟩ := header_eq sha256 img
  obtain ⟨afterWidth,one,two⟩ := Option.bind_eq_some_iff.mp written
  have start := blank_aligned sha256
  have sizes := words_length img
  have aligned : Aligned 4 (header sha256 img) :=
    (start.push (length_bigEndian _)).push (length_bigEndian _)
  have columns := hashColumns_eq sha256 img (List.range img.width)
    (fun x => List.mem_range.mp) aligned
  obtain ⟨-,whole⟩ := flushed_foldl start sizes
  set last := ((List.range img.width).flatMap (column img)).foldl push (header sha256 img)
    with ended
  have same : (words img).foldl push (blank sha256) = last := by
    rw [words,List.foldl_cons,List.foldl_cons,ended,header]
  rw [same,← textureBytes_eq,flushed,flushed] at whole
  have begun : sha256.take (blank sha256).received
      ((blank sha256).cells.take (blank sha256).position) = sha256.initial :=
    sha256.take_nil _
  rw [begun] at whole
  rw [filled] at columns
  have rest : (if 0 < last.position then
      sha256.take last.received (last.cells.take last.position) else last.received) =
        sha256.take sha256.initial (textureBytes img) := by
    rw [← whole]
    split
    · rfl
    · rename_i empty
      rw [Nat.eq_zero_of_not_pos empty,List.take_zero,sha256.take_nil]
  rw [computeTextureHash,one,Option.bind_eq_bind,Option.bind_some,two,Option.bind_some,columns]
  exact congrArg (fun state => some (hexFormat (sha256.digest state))) rest

end Hash

end HmclPe.Auth.Texture
