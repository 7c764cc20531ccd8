/-! Services as the generator sees them: every message a method takes or gives is already resolved to
the file that declares it. -/

namespace TrpcRouters

structure MessageRef where
  /-- The full name, with its package. -/
  typeName : String
  /-- The name that the message's module exports. -/
  localName : String
  /-- The definition file that declares the message. -/
  protoFile : String
deriving DecidableEq, Inhabited, Repr

structure Method where
  name : String
  input : MessageRef
  output : MessageRef
  clientStreaming : Bool
  serverStreaming : Bool
deriving DecidableEq, Inhabited, Repr

namespace Method

def messages (method : Method) : List MessageRef :=
  [method.input, method.output]

end Method

structure Service where
  name : String
  /-- The full name, with its package. -/
  typeName : String
  protoFile : String
  methods : List Method
deriving DecidableEq, Inhabited, Repr

namespace Service

/-- All messages of a service, in the order of their mention. -/
def messages (service : Service) : List MessageRef :=
  service.methods.flatMap Method.messages

end Service

end TrpcRouters
