import RecordLayout.Label

/-!
# Codes of tags and attributes

## Main definitions

* `Dwarf.tagLabel` is the tag of a code;
* `Dwarf.attributeName?` is the name of an attribute, for those that describe types.
-/

namespace RecordLayout.Dwarf

/-- The names of tags. -/
def tagNames : List (Nat × String) :=
  [(0x00, "null"), (0x01, "array_type"), (0x02, "class_type"), (0x03, "entry_point"),
   (0x04, "enumeration_type"), (0x05, "formal_parameter"), (0x06, "global_subroutine"),
   (0x07, "global_variable"), (0x08, "imported_declaration"), (0x0a, "label"),
   (0x0b, "lexical_block"), (0x0c, "local_variable"), (0x0d, "member"), (0x0f, "pointer_type"),
   (0x10, "reference_type"), (0x11, "compile_unit"), (0x12, "string_type"),
   (0x13, "structure_type"), (0x14, "subroutine"), (0x15, "subroutine_type"), (0x16, "typedef"),
   (0x17, "union_type"), (0x18, "unspecified_parameters"), (0x19, "variant"),
   (0x1a, "common_block"), (0x1b, "common_inclusion"), (0x1c, "inheritance"),
   (0x1d, "inlined_subroutine"), (0x1e, "module"), (0x1f, "ptr_to_member_type"), (0x20, "set_type"),
   (0x21, "subrange_type"), (0x22, "with_stmt"), (0x23, "access_declaration"), (0x24, "base_type"),
   (0x25, "catch_block"), (0x26, "const_type"), (0x27, "constant"), (0x28, "enumerator"),
   (0x29, "file_type"), (0x2a, "friend"), (0x2b, "namelist"), (0x2c, "namelist_items"),
   (0x2d, "packed_type"), (0x2e, "subprogram"), (0x2f, "template_type_param"),
   (0x30, "template_value_param"), (0x31, "thrown_type"), (0x32, "try_block"),
   (0x33, "variant_part"), (0x34, "variable"), (0x35, "volatile_type"), (0x36, "dwarf_procedure"),
   (0x37, "restrict_type"), (0x38, "interface_type"), (0x39, "namespace"),
   (0x3a, "imported_module"), (0x3b, "unspecified_type"), (0x3c, "partial_unit"),
   (0x3d, "imported_unit"), (0x3e, "mutable_type"), (0x3f, "condition"), (0x40, "shared_type"),
   (0x41, "type_unit"), (0x42, "rvalue_reference_type"), (0x43, "template_alias"),
   (0x44, "coarray_type"), (0x45, "generic_subrange"), (0x46, "dynamic_type"),
   (0x47, "atomic_type"), (0x48, "call_site"), (0x49, "call_site_parameter"),
   (0x4a, "skeleton_unit"), (0x4b, "immutable_type"), (0x4080, "lo_user"),
   (0x4106, "GNU_template_template_param"), (0x4107, "GNU_template_parameter_pack"),
   (0x4108, "GNU_formal_parameter_pack"), (0x4109, "GNU_call_site"),
   (0x410a, "GNU_call_site_parameter"), (0x4200, "APPLE_property"), (0xffff, "hi_user")]

/-- The tag of a code: its name, or the code itself when it has none. -/
def tagLabel (code : Nat) : Label :=
  match tagNames.find? fun t => t.1 == code with
  | some (_, name) => .name ("DW_TAG_" ++ name)
  | none => .code code

/-- The attribute that says where the entry after the children of an entry is. -/
def siblingCode : Nat := 0x01

/-- The attribute that holds the type of an entry. -/
def typeCode : Nat := 0x49

/-- The attribute of a unit that says where its table of texts begins. -/
def textTableCode : Nat := 0x72

/-- The name of an attribute that describes a type. -/
def attributeName? : Nat → Option String
  | 0x03 => some "DW_AT_name"
  | 0x0b => some "DW_AT_byte_size"
  | 0x0c => some "DW_AT_bit_offset"
  | 0x0d => some "DW_AT_bit_size"
  | 0x2f => some "DW_AT_upper_bound"
  | 0x34 => some "DW_AT_artificial"
  | 0x37 => some "DW_AT_count"
  | 0x38 => some "DW_AT_data_member_location"
  | 0x3c => some "DW_AT_declaration"
  | 0x49 => some "DW_AT_type"
  | 0x6b => some "DW_AT_data_bit_offset"
  | 0x88 => some "DW_AT_alignment"
  | _ => none

end RecordLayout.Dwarf
