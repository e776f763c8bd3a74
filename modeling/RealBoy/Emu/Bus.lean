/-
# `RealBoy.Emu.Bus` — reads and writes of the address space

`monitor_rd_mem` and `monitor_wr_mem` with the module functions they dispatch
to: `cpu_rd`/`cpu_wr`, `ppu_rd`/`ppu_wr` and the MBC1 pair.  Reading changes
nothing, so the read side is a family of functions of the state.

The write side is recursive in the source: a write to 0xff46 copies a page to
OAM through `monitor_wr_mem` itself.  `monitorWrMemWith` takes the function
called back as an argument; `monitorWrMem` closes the knot two levels down,
where the recursion ends, and `monitorWrMem_eq` is the source's equation.
-/
import RealBoy.Emu.State
import RealBoy.Lib.NullRows

namespace RealBoy

open ByteFile

/-! ## Reading -/

/-- `cpu_rd`. -/
def cpuRd (s : Emu) (addr : U16) : U8 :=
  if addr ≥ 0xc000 ∧ addr ≤ 0xdfff then s.wram (addr - 0xc000).toNat
  else if addr ≥ 0xff80 ∧ addr ≤ 0xfffe then s.hram (addr - 0xff80).toNat
  else if addr = 0xffff then s.cpu.ieReg
  else if addr = 0xff0f then s.cpu.ifReg
  else if addr = 0xff04 then s.cpu.divReg
  else if addr = 0xff05 then s.cpu.timaReg
  else if addr = 0xff06 then s.cpu.tmaReg
  else if addr = 0xff07 then s.cpu.tacReg
  else if addr = 0xff50 then (if s.cpu.disableBootrom then 1 else 0)
  else 0

/-- `rd_reg`. -/
def rdReg (regs : PpuRegs) (addr : U16) : U8 :=
  if addr = 0xff40 then regs.lcdc
  else if addr = 0xff41 then regs.stat
  else if addr = 0xff42 then regs.scy
  else if addr = 0xff43 then regs.scx
  else if addr = 0xff44 then regs.ly
  else if addr = 0xff45 then regs.lyc
  else if addr = 0xff46 then regs.dma
  else if addr = 0xff47 then regs.bgp
  else if addr = 0xff48 then regs.obp0
  else if addr = 0xff49 then regs.obp1
  else if addr = 0xff4a then regs.wy
  else if addr = 0xff4b then regs.wx
  else 0

/-- `ppu_rd`. -/
def ppuRd (p : Ppu) (addr : U16) : U8 :=
  if addr ≥ 0xff40 then rdReg p.regs addr
  else if addr ≥ 0x8000 ∧ addr ≤ 0x97ff then p.tileData (addr - 0x8000).toNat
  else if addr ≥ 0x9800 ∧ addr ≤ 0x9bff then p.tileMap1 (addr - 0x9800).toNat
  else if addr ≥ 0x9c00 ∧ addr ≤ 0x9fff then p.tileMap2 (addr - 0x9c00).toNat
  else if addr ≥ 0xfe00 ∧ addr ≤ 0xfe9f then p.oam (addr - 0xfe00).toNat
  else 0

/-- `mbc1_rd_mem`. -/
def mbc1RdMem (m : Mbc1) (addr : U16) : U8 :=
  if addr ≥ 0xa000 ∧ addr ≤ 0xbfff then m.mbc1Ram (addr - 0xa000).toNat
  else m.mbc1Rom addr.toNat

/-- A key flag at its line of 0xff00. -/
def keyLine (released : Bool) (line : Nat) : U8 :=
  (if released then (1 : U8) else 0) <<< line

/-- The 0xff00 case of `monitor_rd_mem`. -/
def rdJoypad (s : Emu) : U8 :=
  let v := s.tmpIoregs 0xff00
  if v &&& 0x30 = 0x30 then 0x3f
  else if bit v 0x10 then
    v ||| (keyLine s.keys.startReleased 3 ||| keyLine s.keys.selectReleased 2
      ||| keyLine s.keys.bReleased 1 ||| keyLine s.keys.aReleased 0)
  else
    v ||| (keyLine s.keys.downReleased 3 ||| keyLine s.keys.upReleased 2
      ||| keyLine s.keys.leftReleased 1 ||| keyLine s.keys.rightReleased 0)

/-- The addresses `monitor_rd_mem` and `monitor_wr_mem` send to the PPU. -/
def PpuRange (addr : U16) : Prop :=
  (addr ≥ 0x8000 ∧ addr ≤ 0x9fff) ∨ (addr ≥ 0xfe00 ∧ addr ≤ 0xfe9f) ∨
    (addr ≥ 0xff40 ∧ addr ≤ 0xff4b)

instance (addr : U16) : Decidable (PpuRange addr) :=
  inferInstanceAs (Decidable ((_ ∧ _) ∨ (_ ∧ _) ∨ (_ ∧ _)))

/-- `monitor_rd_mem`. -/
def monitorRdMem (s : Emu) (addr : U16) : U8 :=
  if PpuRange addr then ppuRd s.ppu addr
  else if addr ≥ 0xc000 ∧ addr ≤ 0xdfff then cpuRd s addr
  else if addr ≥ 0xff80 ∧ addr ≤ 0xfffe then cpuRd s addr
  else if addr ≤ 0xbfff then mbc1RdMem s.mbc1 addr
  else if addr = 0xffff ∨ addr = 0xff0f ∨ addr = 0xff04 ∨ addr = 0xff05 ∨ addr = 0xff06 ∨
      addr = 0xff07 ∨ addr = 0xff50 then cpuRd s addr
  else if addr = 0xff00 then rdJoypad s
  else s.tmpIoregs addr.toNat

/-! ## Writing -/

/-- An update of the CPU's own registers. -/
def Emu.updCpu (s : Emu) (f : CpuState → CpuState) : Emu := { s with cpu := f s.cpu }

/-- An update of the PPU. -/
def Emu.updPpu (s : Emu) (f : Ppu → Ppu) : Emu := { s with ppu := f s.ppu }

/-- An update of the PPU's registers. -/
def Emu.updPpuRegs (s : Emu) (f : PpuRegs → PpuRegs) : Emu :=
  s.updPpu fun p => { p with regs := f p.regs }

/-- `cpu_request_intr`. -/
def cpuRequestIntr (im : U8) (s : Emu) : Emu :=
  (s.updCpu fun c => { c with ifReg := c.ifReg ||| im }).log (.cpuRequestIntr im)

/-- The divider a write of `value` to TAC selects: the inner `switch` of
`cpu_wr`. -/
def tacDividerOf (value : U8) : U32 :=
  if value &&& 0x3 = 0 then 256
  else if value &&& 0x3 = 1 then 4
  else if value &&& 0x3 = 2 then 16
  else 64

/-- `cpu_wr`. -/
def cpuWr (addr : U16) (value : U8) (s : Emu) : Emu :=
  if addr ≥ 0xc000 ∧ addr ≤ 0xdfff then
    { s with wram := Function.update s.wram (addr - 0xc000).toNat value }
  else if addr ≥ 0xff80 ∧ addr ≤ 0xfffe then
    { s with hram := Function.update s.hram (addr - 0xff80).toNat value }
  else if addr = 0xffff then s.updCpu fun c => { c with ieReg := value }
  else if addr = 0xff0f then s.updCpu fun c => { c with ifReg := value &&& 0x1f }
  else if addr = 0xff04 then s.updCpu fun c => { c with divReg := 0 }
  else if addr = 0xff05 then s.updCpu fun c => { c with timaReg := value }
  else if addr = 0xff06 then s.updCpu fun c => { c with tmaReg := value }
  else if addr = 0xff07 then
    s.updCpu fun c => { c with
      tacReg := value &&& 7, timaEnabled := bit value 0x4, tacDivider := tacDividerOf value }
  else if addr = 0xff50 then s.updCpu fun c => { c with disableBootrom := value != 0 }
  else s

/-- `mbc1_wr_mem`. -/
def mbc1WrMem (addr : U16) (value : U8) (m : Mbc1) : Mbc1 :=
  if addr = 0xff50 then
    let f := fseek m.rom 0
    { m with mbc1Rom := fread m.mbc1Rom 0 0x256 f, rom := f.advance 0x256 }
  else
    let m := if addr ≥ 0x8000 then
        { m with mbc1Ram := Function.update m.mbc1Ram (addr - 0xa000).toNat value }
      else m
    if addr ≥ 0x2000 ∧ addr ≤ 0x3fff then
      let value := if value = 0 then value + 1 else value
      let value := value &&& 0x1f
      let f := fseek m.rom (0x4000 * value.toNat)
      { m with mbc1Rom := fread m.mbc1Rom 0x4000 0x4000 f, rom := f.advance 0x4000 }
    else m

/-- `mbc1_init`, on a freshly opened ROM and the boot ROM. -/
def mbc1Init (rom boot : Array U8) : Mbc1 :=
  let f := fopen rom
  let mem := fread (fun _ => 0) 0 0x8000 f
  { mbc1Rom := fread mem 0 0x256 (fseek (fopen boot) 0)
    mbc1Ram := fun _ => 0
    rom := f.advance 0x8000 }

/-- `ppu_reset`. -/
def ppuReset (s : Emu) : Emu :=
  s.updPpu fun p => { p with
    dotsRemaining := 80, mode := .oam, regs := { p.regs with ly := 0 } }

/-- The cells of `oam_hash`. -/
def oamHashSize : Nat := 17 * 40

/-- The first cell of a row of `oam_hash`. -/
def oamHashRow (row : Nat) : Nat := 40 * row

/-- The row an object is filed in: its Y byte, `>> 4`. -/
def bucketOf (y : U8) : Nat := (y >>> 4).toNat

/-- `oam_rehash`: out of the row of the old Y byte, onto the row of the new. -/
def oamRehash (addr : Nat) (newY : U8) (p : Ppu) : Ppu :=
  let old := oamHashRow (bucketOf (p.oam addr))
  let new := oamHashRow (bucketOf newY)
  let t := NullRows.unlink addr (oamHashSize - old) old false p.oamHash
  { p with oamHash := NullRows.link addr (oamHashSize - new) new t }

/-- The OAM branch of `ppu_wr`. -/
def oamWr (addr : Nat) (value : U8) (p : Ppu) : Ppu :=
  let p := if addr &&& 0x3 = 0 ∧ bucketOf (p.oam addr) ≠ bucketOf value then
      oamRehash addr value p
    else p
  { p with oam := Function.update p.oam addr value }

/-- The OAM address of the `i`-th byte of a DMA transfer. -/
def dmaAddr (i : Nat) : U16 := 0xfe00 + BitVec.ofNat 16 i

/-- The DMA loop of `wr_reg`, from the address `page`. -/
def dmaLoop (busWr : U16 → U8 → Emu → Emu) (page : U16) (s : Emu) : Emu :=
  (List.range 0xa0).foldl
    (fun s i => busWr (dmaAddr i) (monitorRdMem s (page + BitVec.ofNat 16 i)) s) s

/-- The LCDC case of `wr_reg`. -/
def wrLcdc (value : U8) (s : Emu) : Emu :=
  let s := if s.ppu.regs.lcdc &&& 0x80 ≠ value &&& 0x80 then
      let s := ppuReset s
      if value &&& 0x80 = 0 then s.updPpuRegs fun r => { r with stat := r.stat &&& ~~~3 } else s
    else s
  s.updPpuRegs fun r => { r with lcdc := value }

/-- `wr_reg`, with `busWr` for the `monitor_wr_mem` of its DMA loop. -/
def wrRegWith (busWr : U16 → U8 → Emu → Emu) (addr : U16) (value : U8) (s : Emu) : Emu :=
  if addr = 0xff40 then wrLcdc value s
  else if addr = 0xff41 then s.updPpuRegs fun r => { r with stat := value }
  else if addr = 0xff42 then s.updPpuRegs fun r => { r with scy := value }
  else if addr = 0xff43 then s.updPpuRegs fun r => { r with scx := value }
  else if addr = 0xff44 then s.updPpuRegs fun r => { r with ly := value }
  else if addr = 0xff45 then s.updPpuRegs fun r => { r with lyc := value }
  else if addr = 0xff46 then dmaLoop busWr (value.setWidth 16 * 0x100) s
  else if addr = 0xff47 then s.updPpuRegs fun r => { r with bgp := value }
  else if addr = 0xff48 then s.updPpuRegs fun r => { r with obp0 := value }
  else if addr = 0xff49 then s.updPpuRegs fun r => { r with obp1 := value }
  else if addr = 0xff4a then s.updPpuRegs fun r => { r with wy := value }
  else if addr = 0xff4b then s.updPpuRegs fun r => { r with wx := value }
  else s

/-- `ppu_wr`. -/
def ppuWrWith (busWr : U16 → U8 → Emu → Emu) (addr : U16) (value : U8) (s : Emu) : Emu :=
  if addr ≥ 0xff40 then wrRegWith busWr addr value s
  else if addr ≥ 0x8000 ∧ addr ≤ 0x97ff then
    s.updPpu fun p => { p with tileData := Function.update p.tileData (addr - 0x8000).toNat value }
  else if addr ≥ 0x9800 ∧ addr ≤ 0x9bff then
    s.updPpu fun p => { p with tileMap1 := Function.update p.tileMap1 (addr - 0x9800).toNat value }
  else if addr ≥ 0x9c00 ∧ addr ≤ 0x9fff then
    s.updPpu fun p => { p with tileMap2 := Function.update p.tileMap2 (addr - 0x9c00).toNat value }
  else if addr ≥ 0xfe00 ∧ addr ≤ 0xfe9f then s.updPpu (oamWr (addr - 0xfe00).toNat value)
  else s

/-- An update of the cartridge. -/
def Emu.updMbc1 (s : Emu) (f : Mbc1 → Mbc1) : Emu := { s with mbc1 := f s.mbc1 }

/-- `monitor_wr_mem`. -/
def monitorWrMemWith (busWr : U16 → U8 → Emu → Emu) (addr : U16) (value : U8) (s : Emu) : Emu :=
  let s := s.log (.monitorWrMem addr value)
  if addr = 0xffff then cpuWr addr value s
  else if addr = 0xff0f then cpuWr addr value s
  else if addr = 0xff04 then cpuWr addr value s
  else if addr = 0xff05 then cpuWr addr value s
  else if addr = 0xff06 then cpuWr addr value s
  else if addr = 0xff07 then cpuWr addr value s
  else if addr = 0xff50 then (cpuWr addr value s).updMbc1 (mbc1WrMem addr value)
  else if PpuRange addr then ppuWrWith busWr addr value s
  else if addr ≥ 0xc000 ∧ addr ≤ 0xdfff then cpuWr addr value s
  else if addr ≥ 0xff80 ∧ addr ≤ 0xfffe then cpuWr addr value s
  else if addr ≤ 0xbfff then s.updMbc1 (mbc1WrMem addr value)
  else if addr = 0xff00 then
    { s with tmpIoregs := Function.update s.tmpIoregs addr.toNat (value &&& 0x30) }
  else { s with tmpIoregs := Function.update s.tmpIoregs addr.toNat value }

/-- `monitor_wr_mem`, the DMA loop included.  Below a write to 0xff46 every
write is to OAM, which calls nothing back. -/
def monitorWrMem : U16 → U8 → Emu → Emu :=
  monitorWrMemWith (monitorWrMemWith fun _ _ s => s)

/-- `ppu_wr`. -/
def ppuWr : U16 → U8 → Emu → Emu := ppuWrWith monitorWrMem

end RealBoy
