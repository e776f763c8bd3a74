/-
# `RealBoy.Cpu.Table` — the dispatch table

`table_ops`: the 256 unprefixed opcodes, then the 256 that follow 0xcb, in the
order of the source.
-/
import RealBoy.Cpu.Handlers

namespace RealBoy

/-- The first half of `table_ops`, sixteen opcodes to a group. -/
def tableOpsBase : List Op := [
  opNop, opLdBcN16, opLdIndBcA, opIncBc, opIncB, opDecB, opLdBN8, opRlca, opLdIndA16Sp,
  opAddHlBc, opLdAIndBc, opDecBc, opIncC, opDecC, opLdCN8, opRrca,
  opStopN8, opLdDeN16, opLdIndDeA, opIncDe, opIncD, opDecD, opLdDN8, opRla, opJrE8, opAddHlDe,
  opLdAIndDe, opDecDe, opIncE, opDecE, opLdEN8, opRra,
  opJrNzE8, opLdHlN16, opLdiIndHlA, opIncHl, opIncH, opDecH, opLdHN8, opDaa, opJrZE8, opAddHlHl,
  opLdiAIndHl, opDecHl, opIncL, opDecL, opLdLN8, opCpl,
  opJrNcE8, opLdSpN16, opLddIndHlA, opIncSp, opIncIndHl, opDecIndHl, opLdIndHlN8, opScf, opJrCE8,
  opAddHlSp, opLddAIndHl, opDecSp, opIncA, opDecA, opLdAN8, opCcf,
  opLdBB, opLdBC, opLdBD, opLdBE, opLdBH, opLdBL, opLdBIndHl, opLdBA, opLdCB, opLdCC, opLdCD,
  opLdCE, opLdCH, opLdCL, opLdCIndHl, opLdCA,
  opLdDB, opLdDC, opLdDD, opLdDE, opLdDH, opLdDL, opLdDIndHl, opLdDA, opLdEB, opLdEC, opLdED,
  opLdEE, opLdEH, opLdEL, opLdEIndHl, opLdEA,
  opLdHB, opLdHC, opLdHD, opLdHE, opLdHH, opLdHL, opLdHIndHl, opLdHA, opLdLB, opLdLC, opLdLD,
  opLdLE, opLdLH, opLdLL, opLdLIndHl, opLdLA,
  opLdIndHlB, opLdIndHlC, opLdIndHlD, opLdIndHlE, opLdIndHlH, opLdIndHlL, opHalt, opLdIndHlA,
  opLdAB, opLdAC, opLdAD, opLdAE, opLdAH, opLdAL, opLdAIndHl, opLdAA,
  opAddAB, opAddAC, opAddAD, opAddAE, opAddAH, opAddAL, opAddAIndHl, opAddAA, opAdcAB, opAdcAC,
  opAdcAD, opAdcAE, opAdcAH, opAdcAL, opAdcAIndHl, opAdcAA,
  opSubAB, opSubAC, opSubAD, opSubAE, opSubAH, opSubAL, opSubAIndHl, opSubAA, opSbcAB, opSbcAC,
  opSbcAD, opSbcAE, opSbcAH, opSbcAL, opSbcAIndHl, opSbcAA,
  opAndAB, opAndAC, opAndAD, opAndAE, opAndAH, opAndAL, opAndAIndHl, opAndAA, opXorAB, opXorAC,
  opXorAD, opXorAE, opXorAH, opXorAL, opXorAIndHl, opXorAA,
  opOrAB, opOrAC, opOrAD, opOrAE, opOrAH, opOrAL, opOrAIndHl, opOrAA, opCpAB, opCpAC, opCpAD,
  opCpAE, opCpAH, opCpAL, opCpAIndHl, opCpAA,
  opRetNz, opPopBc, opJmpNzA16, opJmpA16, opCallNzA16, opPushBc, opAddAN8, opRestart0h, opRetZ,
  opRet, opJmpZA16, opPrefix, opCallZA16, opCallA16, opAdcAN8, opRestart8h,
  opRetNc, opPopDe, opJmpNcA16, opInval, opCallNcA16, opPushDe, opSubAN8, opRestart10h, opRetC,
  opReti, opJmpCA16, opInval, opCallCA16, opInval, opSbcAN8, opRestart18h,
  opLdhIndA8A, opPopHl, opLdhIndCA, opInval, opInval, opPushHl, opAndAN8, opRestart20h,
  opAddSpE8, opJmpHl, opLdIndA16A, opInval, opInval, opInval, opXorAN8, opRestart28h,
  opLdhAIndA8, opPopAf, opLdhAIndC, opDisInts, opInval, opPushAf, opOrAN8, opRestart30h,
  opLdHlSpE8, opLdSpHl, opLdAIndA16, opEnaInts, opInval, opInval, opCpAN8, opRestart38h]

/-- The second half of `table_ops`, the 0xcb page. -/
def tableOpsPrefix : List Op := [
  opRlcB, opRlcC, opRlcD, opRlcE, opRlcH, opRlcL, opRlcIndHl, opRlcA, opRrcB, opRrcC, opRrcD,
  opRrcE, opRrcH, opRrcL, opRrcIndHl, opRrcA,
  opRlB, opRlC, opRlD, opRlE, opRlH, opRlL, opRlIndHl, opRlA, opRrB, opRrC, opRrD, opRrE, opRrH,
  opRrL, opRrIndHl, opRrA,
  opSlaB, opSlaC, opSlaD, opSlaE, opSlaH, opSlaL, opSlaIndHl, opSlaA, opSraB, opSraC, opSraD,
  opSraE, opSraH, opSraL, opSraIndHl, opSraA,
  opSwpB, opSwpC, opSwpD, opSwpE, opSwpH, opSwpL, opSwpIndHl, opSwpA, opSrlB, opSrlC, opSrlD,
  opSrlE, opSrlH, opSrlL, opSrlIndHl, opSrlA,
  opBit0B, opBit0C, opBit0D, opBit0E, opBit0H, opBit0L, opBit0IndHl, opBit0A, opBit1B, opBit1C,
  opBit1D, opBit1E, opBit1H, opBit1L, opBit1IndHl, opBit1A,
  opBit2B, opBit2C, opBit2D, opBit2E, opBit2H, opBit2L, opBit2IndHl, opBit2A, opBit3B, opBit3C,
  opBit3D, opBit3E, opBit3H, opBit3L, opBit3IndHl, opBit3A,
  opBit4B, opBit4C, opBit4D, opBit4E, opBit4H, opBit4L, opBit4IndHl, opBit4A, opBit5B, opBit5C,
  opBit5D, opBit5E, opBit5H, opBit5L, opBit5IndHl, opBit5A,
  opBit6B, opBit6C, opBit6D, opBit6E, opBit6H, opBit6L, opBit6IndHl, opBit6A, opBit7B, opBit7C,
  opBit7D, opBit7E, opBit7H, opBit7L, opBit7IndHl, opBit7A,
  opRst0B, opRst0C, opRst0D, opRst0E, opRst0H, opRst0L, opRst0IndHl, opRst0A, opRst1B, opRst1C,
  opRst1D, opRst1E, opRst1H, opRst1L, opRst1IndHl, opRst1A,
  opRst2B, opRst2C, opRst2D, opRst2E, opRst2H, opRst2L, opRst2IndHl, opRst2A, opRst3B, opRst3C,
  opRst3D, opRst3E, opRst3H, opRst3L, opRst3IndHl, opRst3A,
  opRst4B, opRst4C, opRst4D, opRst4E, opRst4H, opRst4L, opRst4IndHl, opRst4A, opRst5B, opRst5C,
  opRst5D, opRst5E, opRst5H, opRst5L, opRst5IndHl, opRst5A,
  opRst6B, opRst6C, opRst6D, opRst6E, opRst6H, opRst6L, opRst6IndHl, opRst6A, opRst7B, opRst7C,
  opRst7D, opRst7E, opRst7H, opRst7L, opRst7IndHl, opRst7A,
  opSet0B, opSet0C, opSet0D, opSet0E, opSet0H, opSet0L, opSet0IndHl, opSet0A, opSet1B, opSet1C,
  opSet1D, opSet1E, opSet1H, opSet1L, opSet1IndHl, opSet1A,
  opSet2B, opSet2C, opSet2D, opSet2E, opSet2H, opSet2L, opSet2IndHl, opSet2A, opSet3B, opSet3C,
  opSet3D, opSet3E, opSet3H, opSet3L, opSet3IndHl, opSet3A,
  opSet4B, opSet4C, opSet4D, opSet4E, opSet4H, opSet4L, opSet4IndHl, opSet4A, opSet5B, opSet5C,
  opSet5D, opSet5E, opSet5H, opSet5L, opSet5IndHl, opSet5A,
  opSet6B, opSet6C, opSet6D, opSet6E, opSet6H, opSet6L, opSet6IndHl, opSet6A, opSet7B, opSet7C,
  opSet7D, opSet7E, opSet7H, opSet7L, opSet7IndHl, opSet7A]

/-- `table_ops`. -/
def tableOps : List Op := tableOpsBase ++ tableOpsPrefix

/-- `ops_table_dispatch`. -/
def opsTableDispatch (op : U8) (isPrefix : Bool) : Op :=
  tableOps.getD (op.toNat ||| (if isPrefix then 1 <<< 8 else 0)) opInval

end RealBoy
