import EventTracking.Context.Basic

set_option autoImplicit false

namespace EventTracking

namespace Names

def applicationContext : String := "ApplicationContext"
def pathContext : String := "PathContext"
def cookieIdContext : String := "CookieIdContext"
def httpContext : String := "HttpContext"
def sessionContext : String := "SessionContext"
def marketingContext : String := "MarketingContext"

def rootLocationContext : String := "RootLocationContext"
def contentContext : String := "ContentContext"
def pressableContext : String := "PressableContext"
def linkContext : String := "LinkContext"
def inputContext : String := "InputContext"
def overlayContext : String := "OverlayContext"
def navigationContext : String := "NavigationContext"
def expandableContext : String := "ExpandableContext"
def mediaPlayerContext : String := "MediaPlayerContext"

def pressEvent : String := "PressEvent"
def inputChangeEvent : String := "InputChangeEvent"
def applicationLoadedEvent : String := "ApplicationLoadedEvent"
def visibleEvent : String := "VisibleEvent"
def hiddenEvent : String := "HiddenEvent"
def successEvent : String := "SuccessEvent"
def failureEvent : String := "FailureEvent"
def mediaStartEvent : String := "MediaStartEvent"
def mediaStopEvent : String := "MediaStopEvent"

def interactiveMarker : String := "__interactive_event"

def nonInteractiveMarker : String := "__non_interactive_event"

def interactiveTypes : List String := [pressEvent, inputChangeEvent]

def isInteractiveType (type : String) : Bool := interactiveTypes.contains type

end Names

namespace Context

def application (id : String) : Context := new Names.applicationContext id

def path (id : String) : Context := new Names.pathContext id

def cookieId (id cookie : String) : Context :=
  (new Names.cookieIdContext id).withProperty "cookie_id" (.str cookie)

def http (id referrer userAgent : String) : Context :=
  ((new Names.httpContext id).withProperty "referrer" (.str referrer)).withProperty
    "user_agent" (.str userAgent)

def session (id : String) (hitNumber : Nat) : Context :=
  (new Names.sessionContext id).withProperty "hit_number" (.int hitNumber)

def rootLocation (id : String) : Context := new Names.rootLocationContext id

def content (id : String) : Context := new Names.contentContext id

def pressable (id : String) : Context := new Names.pressableContext id

def link (id href : String) : Context :=
  (new Names.linkContext id).withProperty "href" (.str href)

def input (id : String) : Context := new Names.inputContext id

def overlay (id : String) : Context := new Names.overlayContext id

def navigation (id : String) : Context := new Names.navigationContext id

def expandable (id : String) : Context := new Names.expandableContext id

def mediaPlayer (id : String) : Context := new Names.mediaPlayerContext id

end Context

end EventTracking
