/-! The messages that describe definition files, as tables of their fields. -/

namespace TrpcRouters.Wire

inductive MessageType where
  | fileDescriptorSet
  | fileDescriptorProto
  | descriptorProto
  | extensionRange
  | reservedRange
  | extensionRangeOptions
  | fieldDescriptorProto
  | oneofDescriptorProto
  | enumDescriptorProto
  | enumReservedRange
  | enumValueDescriptorProto
  | serviceDescriptorProto
  | methodDescriptorProto
  | fileOptions
  | messageOptions
  | fieldOptions
  | oneofOptions
  | enumOptions
  | enumValueOptions
  | serviceOptions
  | methodOptions
  | uninterpretedOption
  | namePart
  | sourceCodeInfo
  | location
deriving DecidableEq, Inhabited, Repr

/-- What a field holds. Numbers of all widths and enumerations are read alike. -/
inductive FieldType where
  | text
  | bytes
  | flag
  | integer
  | double
  | message (type : MessageType)
deriving DecidableEq, Inhabited, Repr

structure Field where
  number : Nat
  name : String
  type : FieldType
  repeated : Bool := false
deriving DecidableEq, Inhabited, Repr

namespace MessageType

def name : MessageType → String
  | fileDescriptorSet => "FileDescriptorSet"
  | fileDescriptorProto => "FileDescriptorProto"
  | descriptorProto => "DescriptorProto"
  | extensionRange => "ExtensionRange"
  | reservedRange => "ReservedRange"
  | extensionRangeOptions => "ExtensionRangeOptions"
  | fieldDescriptorProto => "FieldDescriptorProto"
  | oneofDescriptorProto => "OneofDescriptorProto"
  | enumDescriptorProto => "EnumDescriptorProto"
  | enumReservedRange => "EnumReservedRange"
  | enumValueDescriptorProto => "EnumValueDescriptorProto"
  | serviceDescriptorProto => "ServiceDescriptorProto"
  | methodDescriptorProto => "MethodDescriptorProto"
  | fileOptions => "FileOptions"
  | messageOptions => "MessageOptions"
  | fieldOptions => "FieldOptions"
  | oneofOptions => "OneofOptions"
  | enumOptions => "EnumOptions"
  | enumValueOptions => "EnumValueOptions"
  | serviceOptions => "ServiceOptions"
  | methodOptions => "MethodOptions"
  | uninterpretedOption => "UninterpretedOption"
  | namePart => "NamePart"
  | sourceCodeInfo => "SourceCodeInfo"
  | location => "Location"

/-- The field by which every options message carries what its schema does not interpret. -/
def uninterpreted : Field :=
  ⟨999, "uninterpreted_option", .message uninterpretedOption, true⟩

def fields : MessageType → List Field
  | fileDescriptorSet => [⟨1, "file", .message fileDescriptorProto, true⟩]
  | fileDescriptorProto => [
    ⟨1, "name", .text, false⟩,
    ⟨2, "package", .text, false⟩,
    ⟨3, "dependency", .text, true⟩,
    ⟨10, "public_dependency", .integer, true⟩,
    ⟨11, "weak_dependency", .integer, true⟩,
    ⟨4, "message_type", .message descriptorProto, true⟩,
    ⟨5, "enum_type", .message enumDescriptorProto, true⟩,
    ⟨6, "service", .message serviceDescriptorProto, true⟩,
    ⟨7, "extension", .message fieldDescriptorProto, true⟩,
    ⟨8, "options", .message fileOptions, false⟩,
    ⟨9, "source_code_info", .message sourceCodeInfo, false⟩,
    ⟨12, "syntax", .text, false⟩]
  | descriptorProto => [
    ⟨1, "name", .text, false⟩,
    ⟨2, "field", .message fieldDescriptorProto, true⟩,
    ⟨6, "extension", .message fieldDescriptorProto, true⟩,
    ⟨3, "nested_type", .message descriptorProto, true⟩,
    ⟨4, "enum_type", .message enumDescriptorProto, true⟩,
    ⟨5, "extension_range", .message extensionRange, true⟩,
    ⟨8, "oneof_decl", .message oneofDescriptorProto, true⟩,
    ⟨7, "options", .message messageOptions, false⟩,
    ⟨9, "reserved_range", .message reservedRange, true⟩,
    ⟨10, "reserved_name", .text, true⟩]
  | extensionRange => [
    ⟨1, "start", .integer, false⟩,
    ⟨2, "end", .integer, false⟩,
    ⟨3, "options", .message extensionRangeOptions, false⟩]
  | reservedRange => [⟨1, "start", .integer, false⟩, ⟨2, "end", .integer, false⟩]
  | extensionRangeOptions => [uninterpreted]
  | fieldDescriptorProto => [
    ⟨1, "name", .text, false⟩,
    ⟨3, "number", .integer, false⟩,
    ⟨4, "label", .integer, false⟩,
    ⟨5, "r#type", .integer, false⟩,
    ⟨6, "type_name", .text, false⟩,
    ⟨2, "extendee", .text, false⟩,
    ⟨7, "default_value", .text, false⟩,
    ⟨9, "oneof_index", .integer, false⟩,
    ⟨10, "json_name", .text, false⟩,
    ⟨8, "options", .message fieldOptions, false⟩,
    ⟨17, "proto3_optional", .flag, false⟩]
  | oneofDescriptorProto => [
    ⟨1, "name", .text, false⟩,
    ⟨2, "options", .message oneofOptions, false⟩]
  | enumDescriptorProto => [
    ⟨1, "name", .text, false⟩,
    ⟨2, "value", .message enumValueDescriptorProto, true⟩,
    ⟨3, "options", .message enumOptions, false⟩,
    ⟨4, "reserved_range", .message enumReservedRange, true⟩,
    ⟨5, "reserved_name", .text, true⟩]
  | enumReservedRange => [⟨1, "start", .integer, false⟩, ⟨2, "end", .integer, false⟩]
  | enumValueDescriptorProto => [
    ⟨1, "name", .text, false⟩,
    ⟨2, "number", .integer, false⟩,
    ⟨3, "options", .message enumValueOptions, false⟩]
  | serviceDescriptorProto => [
    ⟨1, "name", .text, false⟩,
    ⟨2, "method", .message methodDescriptorProto, true⟩,
    ⟨3, "options", .message serviceOptions, false⟩]
  | methodDescriptorProto => [
    ⟨1, "name", .text, false⟩,
    ⟨2, "input_type", .text, false⟩,
    ⟨3, "output_type", .text, false⟩,
    ⟨4, "options", .message methodOptions, false⟩,
    ⟨5, "client_streaming", .flag, false⟩,
    ⟨6, "server_streaming", .flag, false⟩]
  | fileOptions => [
    ⟨1, "java_package", .text, false⟩,
    ⟨8, "java_outer_classname", .text, false⟩,
    ⟨10, "java_multiple_files", .flag, false⟩,
    ⟨20, "java_generate_equals_and_hash", .flag, false⟩,
    ⟨27, "java_string_check_utf8", .flag, false⟩,
    ⟨9, "optimize_for", .integer, false⟩,
    ⟨11, "go_package", .text, false⟩,
    ⟨16, "cc_generic_services", .flag, false⟩,
    ⟨17, "java_generic_services", .flag, false⟩,
    ⟨18, "py_generic_services", .flag, false⟩,
    ⟨42, "php_generic_services", .flag, false⟩,
    ⟨23, "deprecated", .flag, false⟩,
    ⟨31, "cc_enable_arenas", .flag, false⟩,
    ⟨36, "objc_class_prefix", .text, false⟩,
    ⟨37, "csharp_namespace", .text, false⟩,
    ⟨39, "swift_prefix", .text, false⟩,
    ⟨40, "php_class_prefix", .text, false⟩,
    ⟨41, "php_namespace", .text, false⟩,
    ⟨44, "php_metadata_namespace", .text, false⟩,
    ⟨45, "ruby_package", .text, false⟩,
    uninterpreted]
  | messageOptions => [
    ⟨1, "message_set_wire_format", .flag, false⟩,
    ⟨2, "no_standard_descriptor_accessor", .flag, false⟩,
    ⟨3, "deprecated", .flag, false⟩,
    ⟨7, "map_entry", .flag, false⟩,
    uninterpreted]
  | fieldOptions => [
    ⟨1, "ctype", .integer, false⟩,
    ⟨2, "packed", .flag, false⟩,
    ⟨6, "jstype", .integer, false⟩,
    ⟨5, "lazy", .flag, false⟩,
    ⟨3, "deprecated", .flag, false⟩,
    ⟨10, "weak", .flag, false⟩,
    uninterpreted]
  | oneofOptions => [uninterpreted]
  | enumOptions => [
    ⟨2, "allow_alias", .flag, false⟩,
    ⟨3, "deprecated", .flag, false⟩,
    uninterpreted]
  | enumValueOptions => [⟨1, "deprecated", .flag, false⟩, uninterpreted]
  | serviceOptions => [⟨33, "deprecated", .flag, false⟩, uninterpreted]
  | methodOptions => [
    ⟨33, "deprecated", .flag, false⟩,
    ⟨34, "idempotency_level", .integer, false⟩,
    uninterpreted]
  | uninterpretedOption => [
    ⟨2, "name", .message namePart, true⟩,
    ⟨3, "identifier_value", .text, false⟩,
    ⟨4, "positive_int_value", .integer, false⟩,
    ⟨5, "negative_int_value", .integer, false⟩,
    ⟨6, "double_value", .double, false⟩,
    ⟨7, "string_value", .bytes, false⟩,
    ⟨8, "aggregate_value", .text, false⟩]
  | namePart => [⟨1, "name_part", .text, false⟩, ⟨2, "is_extension", .flag, false⟩]
  | sourceCodeInfo => [⟨1, "location", .message location, true⟩]
  | location => [
    ⟨1, "path", .integer, true⟩,
    ⟨2, "span", .integer, true⟩,
    ⟨3, "leading_comments", .text, false⟩,
    ⟨4, "trailing_comments", .text, false⟩,
    ⟨6, "leading_detached_comments", .text, true⟩]

def field? (type : MessageType) (number : Nat) : Option Field :=
  type.fields.find? (fun field => field.number == number)

end MessageType

end TrpcRouters.Wire
