import Canon.Token.Families

/-!
The reserved words of C and of its dialects. Every keyword has a primary spelling and the families of dialects
that have it; some have further spellings, each with families of its own.
-/
namespace Canon

inductive Keyword where
  | auto | break_ | case_ | char | const | continue_ | default_ | do_ | double | else_ | enum | external
  | float | for_ | goto | if_ | inline | int | long | register | restrict | return_ | short | signed
  | sizeof | static | struct | switch | typedef | union | unsigned | void | volatile | while_ | underBool
  | complex | imaginary | bool | true_ | false_ | asm | typeof | alignof | attribute_ | builtinVaArg
  | builtinOffsetof | builtinTypesCompatibleP | builtinChooseExpr | extension | imag | real | label
  | thread | func | function | prettyFunction | declspec | cdecl | stdcall | fastcall | forceinline | ptr64
  | w64 | int8 | int16 | int32 | int64
  deriving DecidableEq, Repr

namespace Keyword

structure Entry where
  name : String
  spelling : String
  families : Families

def entry : Keyword → Entry
  | .auto => ⟨"KwAuto", "auto", .all⟩
  | .break_ => ⟨"KwBreak", "break", .all⟩
  | .case_ => ⟨"KwCase", "case", .all⟩
  | .char => ⟨"KwChar", "char", .all⟩
  | .const => ⟨"KwConst", "const", .all⟩
  | .continue_ => ⟨"KwContinue", "continue", .all⟩
  | .default_ => ⟨"KwDefault", "default", .all⟩
  | .do_ => ⟨"KwDo", "do", .all⟩
  | .double => ⟨"KwDouble", "double", .all⟩
  | .else_ => ⟨"KwElse", "else", .all⟩
  | .enum => ⟨"KwEnum", "enum", .all⟩
  | .external => ⟨"KwExtern", "extern", .all⟩
  | .float => ⟨"KwFloat", "float", .all⟩
  | .for_ => ⟨"KwFor", "for", .all⟩
  | .goto => ⟨"KwGoto", "goto", .all⟩
  | .if_ => ⟨"KwIf", "if", .all⟩
  | .inline => ⟨"KwInline", "inline", Families.c99 ∪ Families.gnu⟩
  | .int => ⟨"KwInt", "int", .all⟩
  | .long => ⟨"KwLong", "long", .all⟩
  | .register => ⟨"KwRegister", "register", .all⟩
  | .restrict => ⟨"KwRestrict", "restrict", .c99⟩
  | .return_ => ⟨"KwReturn", "return", .all⟩
  | .short => ⟨"KwShort", "short", .all⟩
  | .signed => ⟨"KwSigned", "signed", .all⟩
  | .sizeof => ⟨"KwSizeof", "sizeof", .all⟩
  | .static => ⟨"KwStatic", "static", .all⟩
  | .struct => ⟨"KwStruct", "struct", .all⟩
  | .switch => ⟨"KwSwitch", "switch", .all⟩
  | .typedef => ⟨"KwTypedef", "typedef", .all⟩
  | .union => ⟨"KwUnion", "union", .all⟩
  | .unsigned => ⟨"KwUnsigned", "unsigned", .all⟩
  | .void => ⟨"KwVoid", "void", .all⟩
  | .volatile => ⟨"KwVolatile", "volatile", .all⟩
  | .while_ => ⟨"KwWhile", "while", .all⟩
  | .underBool => ⟨"KwUnderBool", "_Bool", .all⟩
  | .complex => ⟨"KwComplex", "_Complex", .all⟩
  | .imaginary => ⟨"KwImaginary", "_Imaginary", .all⟩
  | .bool => ⟨"KwBool", "bool", .boolean⟩
  | .true_ => ⟨"KwTrue", "true", .boolean⟩
  | .false_ => ⟨"KwFalse", "false", .boolean⟩
  | .asm => ⟨"KwAsm", "asm", .gnu⟩
  | .typeof => ⟨"KwTypeof", "typeof", .gnu⟩
  | .alignof => ⟨"KwAlignof", "__alignof", .all⟩
  | .attribute_ => ⟨"KwAttribute", "__attribute", .all⟩
  | .builtinVaArg => ⟨"KwBuiltinVaArg", "__builtin_va_arg", .all⟩
  | .builtinOffsetof => ⟨"KwBuiltinOffsetof", "__builtin_offsetof", .all⟩
  | .builtinTypesCompatibleP => ⟨"KwBuiltinTypesCompatibleP", "__builtin_types_compatible_p", .all⟩
  | .builtinChooseExpr => ⟨"KwBuiltinChooseExpr", "__builtin_choose_expr", .all⟩
  | .extension => ⟨"KwExtension", "__extension__", .all⟩
  | .imag => ⟨"KwImag", "__imag", .all⟩
  | .real => ⟨"KwReal", "__real", .all⟩
  | .label => ⟨"KwLabel", "__label__", .all⟩
  | .thread => ⟨"KwThread", "__thread", .all⟩
  | .func => ⟨"KwFunc", "__func__", .all⟩
  | .function => ⟨"KwFunction", "__FUNCTION__", .all⟩
  | .prettyFunction => ⟨"KwPrettyFunction", "__PRETTY_FUNCTION__", .all⟩
  | .declspec => ⟨"KwDeclspec", "__declspec", .microsoft⟩
  | .cdecl => ⟨"KwCdecl", "__cdecl", .microsoft⟩
  | .stdcall => ⟨"KwStdcall", "__stdcall", .microsoft⟩
  | .fastcall => ⟨"KwFastcall", "__fastcall", .microsoft⟩
  | .forceinline => ⟨"KwForceinline", "__forceinline", .microsoft⟩
  | .ptr64 => ⟨"KwPtr64", "__ptr64", .microsoft⟩
  | .w64 => ⟨"KwW64", "__w64", .microsoft⟩
  | .int8 => ⟨"KwInt8", "__int8", .microsoft⟩
  | .int16 => ⟨"KwInt16", "__int16", .microsoft⟩
  | .int32 => ⟨"KwInt32", "__int32", .microsoft⟩
  | .int64 => ⟨"KwInt64", "__int64", .microsoft⟩

def name (keyword : Keyword) : String := keyword.entry.name

def spelling (keyword : Keyword) : String := keyword.entry.spelling

def families (keyword : Keyword) : Families := keyword.entry.families

def all : Array Keyword :=
  #[.auto, .break_, .case_, .char, .const, .continue_, .default_, .do_, .double, .else_, .enum, .external,
    .float, .for_, .goto, .if_, .inline, .int, .long, .register, .restrict, .return_, .short, .signed,
    .sizeof, .static, .struct, .switch, .typedef, .union, .unsigned, .void, .volatile, .while_, .underBool,
    .complex, .imaginary, .bool, .true_, .false_, .asm, .typeof, .alignof, .attribute_, .builtinVaArg,
    .builtinOffsetof, .builtinTypesCompatibleP, .builtinChooseExpr, .extension, .imag, .real, .label,
    .thread, .func, .function, .prettyFunction, .declspec, .cdecl, .stdcall, .fastcall, .forceinline,
    .ptr64, .w64, .int8, .int16, .int32, .int64]

def position (keyword : Keyword) : Nat := keyword.ctorIdx

theorem all_position (keyword : Keyword) : all[keyword.position]? = some keyword := by
  cases keyword <;> rfl

end Keyword

structure KeywordSpelling where
  spelling : String
  keyword : Keyword
  families : Families

namespace KeywordSpelling

def primary : List KeywordSpelling :=
  Keyword.all.toList.map fun keyword => ⟨keyword.spelling, keyword, keyword.families⟩

def alternate : List KeywordSpelling := [
  ⟨"__const", .const, .all⟩,
  ⟨"__const__", .const, .all⟩,
  ⟨"__inline", .inline, .all⟩,
  ⟨"__inline__", .inline, .all⟩,
  ⟨"__restrict", .restrict, .all⟩,
  ⟨"__restrict__", .restrict, .all⟩,
  ⟨"__signed", .signed, .all⟩,
  ⟨"__signed__", .signed, .all⟩,
  ⟨"__volatile", .volatile, .all⟩,
  ⟨"__volatile__", .volatile, .all⟩,
  ⟨"__typeof", .typeof, .all⟩,
  ⟨"__typeof__", .typeof, .all⟩,
  ⟨"__asm", .asm, .all⟩,
  ⟨"__asm__", .asm, .all⟩,
  ⟨"__attribute__", .attribute_, .all⟩,
  ⟨"__alignof__", .alignof, .all⟩,
  ⟨"__imag__", .imag, .all⟩,
  ⟨"__real__", .real, .all⟩,
  ⟨"_asm", .asm, .microsoft⟩,
  ⟨"_cdecl", .cdecl, .microsoft⟩,
  ⟨"_stdcall", .stdcall, .microsoft⟩,
  ⟨"_fastcall", .fastcall, .microsoft⟩]

/-- Every spelling that denotes a keyword somewhere, the primary ones first. -/
def all : List KeywordSpelling := primary ++ alternate

end KeywordSpelling
end Canon
