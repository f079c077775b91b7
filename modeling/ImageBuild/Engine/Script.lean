import ImageBuild.Engine.Client
/-!
# Engines that follow a script

A script says in advance what an engine responds to the requests of each route, in turn; the last
response is repeated.  The state of such an engine is the list of requests that it was sent.
-/

namespace ImageBuild.Engine

/-- The responses of the routes, where a route is a method and a path. -/
abbrev Routes := List (String × List Response)

/-- The route of a request. -/
def Request.route (r : Request) : String :=
  r.method ++ " " ++ r.path

/-- The response to a request that there is no route for. -/
def unknownRoute : Response where
  status := 404
  body := Text.Utf8.ofString "\x7b\"message\":\"page not found\"\x7d"

/-- The response to the request of a route that comes after `earlier` others. -/
def Routes.response (routes : Routes) (route : String) (earlier : Nat) : Response :=
  match routes.find? fun e => e.1 == route with
  | some (_, responses) => responses.getD earlier (responses.getLastD unknownRoute)
  | none => unknownRoute

/-- A request that cannot be sent to its end gets no response. -/
def Request.breaksOff (r : Request) : Bool :=
  r.context.any fun c => c.archive.fault.isSome

/-- The exchange with an engine that follows a script.  Its state holds the latest request first. -/
def Routes.exchange (routes : Routes) : Exchange (List Request) := fun request sent =>
  let earlier := (sent.filter fun r => r.route == request.route).length
  let result :=
    if request.breaksOff then .error .transport
    else .ok (routes.response request.route earlier)
  (result, request :: sent)

end ImageBuild.Engine
